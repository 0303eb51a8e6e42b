import StackSweep.Roster
import StackSweep.Proofs.Site

/-!
# The lowest boundary

A roster answers for all its kinds at once with the innermost of the boundaries that its sweeps have
published. A boundary that is missing does not take part, for as a position it would lie inside all
others. So the answer is where the region begins in which some kind may still have work to do, and
the order in which the sweeps were installed does not show.

A sweep takes part exactly if the campaign that it published last is not over. Nobody asks whether
that campaign is the current one. A kind that went stale in the middle of a campaign takes part with
its old boundary until it publishes again, and the answer may then lie inside the boundaries of all
kinds that are in progress.
-/

namespace StackSweep

/-- Of these positions the innermost, or none if there are none. -/
inductive Position.IsInnermostOf (ps : List Position) : Position → Prop
  | missing : ps = [] → IsInnermostOf ps .none
  | found {p : Position} : p ∈ ps → (∀ q ∈ ps, p.addr ≤ q.addr) → IsInnermostOf ps p

namespace Position

variable {p q : Position} {ps qs : List Position}

theorem addr_foldl_innermost_le (ps : List Position) (p : Position) :
    ∀ q ∈ p :: ps, (ps.foldl innermost p).addr ≤ q.addr := by
  induction ps generalizing p with
  | nil =>
    rintro q (_ | ⟨_, ⟨⟩⟩)
    exact Nat.le_refl _
  | cons r ps ih =>
    have le := ih (p.innermost r)
    have first := le _ List.mem_cons_self
    rw [addr_innermost] at first
    intro q hq
    rw [List.foldl_cons]
    rcases List.mem_cons.1 hq with rfl | hq
    · omega
    · rcases List.mem_cons.1 hq with rfl | hq
      · omega
      · exact le q (List.mem_cons_of_mem _ hq)

theorem innermost_eq_or_eq (p q : Position) : p.innermost q = p ∨ p.innermost q = q := by
  unfold innermost
  split
  · exact .inl rfl
  · exact .inr rfl

theorem foldl_innermost_mem (ps : List Position) (p : Position) :
    ps.foldl innermost p ∈ p :: ps := by
  induction ps generalizing p with
  | nil => exact List.mem_cons_self
  | cons r ps ih =>
    rw [List.foldl_cons]
    rcases innermost_eq_or_eq p r with same | same
    · rw [same]
      rcases List.mem_cons.1 (ih p) with first | later
      · exact List.mem_cons.2 (.inl first)
      · exact List.mem_cons_of_mem _ (List.mem_cons_of_mem _ later)
    · rw [same]
      exact List.mem_cons_of_mem _ (ih r)

/-- It depends on nothing but which positions there are. -/
theorem IsInnermostOf.unique (hp : IsInnermostOf ps p) (hq : IsInnermostOf qs q)
    (same : ∀ r, r ∈ ps ↔ r ∈ qs) : p = q := by
  cases hp with
  | missing none =>
    cases hq with
    | missing _ => rfl
    | found mem _ => cases none ▸ (same q).2 mem
  | found mem least =>
    cases hq with
    | missing none => cases none ▸ (same p).1 mem
    | found mem' least' =>
      exact ext_iff.2 (Nat.le_antisymm (least q ((same q).2 mem')) (least' p ((same p).1 mem)))

/-- Some position lies at `x` or inside of it exactly if the innermost one does. -/
theorem IsInnermostOf.exists_le_iff (hp : IsInnermostOf ps p) (marked : none ∉ ps)
    (x : Position) : (∃ q ∈ ps, q.addr ≤ x.addr) ↔ p ≠ none ∧ p.addr ≤ x.addr := by
  cases hp with
  | missing empty => simp [empty]
  | found mem least =>
    constructor
    · rintro ⟨q, hq, le⟩
      exact ⟨fun missing => marked (missing ▸ mem), Nat.le_trans (least q hq) le⟩
    · rintro ⟨-, le⟩
      exact ⟨p, mem, le⟩

/-- The innermost of all is the innermost of some as well exactly if none of the others lies inside
all of these. -/
theorem IsInnermostOf.of_subset_iff (hp : IsInnermostOf ps p) (marked : none ∉ ps)
    (subset : qs ⊆ ps) : IsInnermostOf qs p ↔ ∀ r ∈ ps, ∃ q ∈ qs, q.addr ≤ r.addr := by
  cases hp with
  | missing empty =>
    have none : qs = [] := List.eq_nil_of_subset_nil (empty ▸ subset)
    simp only [empty, List.not_mem_nil, false_implies, implies_true, iff_true]
    exact .missing none
  | found mem least =>
    constructor
    · intro innermost r hr
      cases innermost with
      | missing _ => exact absurd mem marked
      | found mem' _ => exact ⟨p, mem', least r hr⟩
    · intro inside
      obtain ⟨q, hq, le⟩ := inside p mem
      have same : q = p := ext_iff.2 (Nat.le_antisymm le (least q (subset hq)))
      exact .found (same ▸ hq) fun r hr => least r (subset hr)

end Position

/-! ## A threshold for all kinds -/

namespace Roster

variable {ς ε : Type} {r r' : Roster} {w : World ς} {tid : Nat} {k : KindId} {i : Nat}
  {ms : List (KindId × Nat)} {P : KindId → Sweep → Bool} {b : Position}

/-- The boundaries that those sweeps have published of which `P` is true. -/
def boundariesWhere (r : Roster) (w : World ς) (P : KindId → Sweep → Bool) : List Position :=
  (r.members.filter fun m => P m.1 (w.sweeps.getD m.2 default)).map fun m =>
    (w.sweeps.getD m.2 default).published.boundary

theorem mem_boundariesWhere :
    b ∈ r.boundariesWhere w P ↔ ∃ m ∈ r.members, P m.1 (w.sweeps.getD m.2 default) = true ∧
      (w.sweeps.getD m.2 default).published.boundary = b := by
  simp only [boundariesWhere, List.mem_map, List.mem_filter, and_assoc]

/-- The boundaries that are not missing. -/
def boundaries (r : Roster) (w : World ς) : List Position :=
  r.boundariesWhere w fun _ s => !s.published.boundary.isNone

theorem mem_boundaries :
    b ∈ r.boundaries w ↔ b ≠ .none ∧
      ∃ i ∈ r.sweeps, (w.sweeps.getD i default).published.boundary = b := by
  rw [boundaries, mem_boundariesWhere]
  constructor
  · rintro ⟨m, hm, found, rfl⟩
    rw [Bool.not_eq_true', Bool.eq_false_iff, Ne, Position.isNone_iff] at found
    exact ⟨found, m.2, List.mem_map_of_mem hm, rfl⟩
  · rintro ⟨found, i, hi, rfl⟩
    obtain ⟨m, hm, rfl⟩ := List.mem_map.1 hi
    refine ⟨m, hm, ?_, rfl⟩
    rw [Bool.not_eq_true', Bool.eq_false_iff, Ne, Position.isNone_iff]
    exact found

theorem none_notMem_boundaries : .none ∉ r.boundaries w :=
  fun missing => (mem_boundaries.1 missing).1 rfl

theorem lowestBoundary_isInnermostOf (r : Roster) (w : World ς) :
    Position.IsInnermostOf (r.boundaries w) (r.lowestBoundary w) := by
  have same : ((r.published w).map Published.boundary).filter (!·.isNone) = r.boundaries w := by
    simp only [published, sweeps, boundaries, boundariesWhere, List.map_map, List.filter_map]
    rfl
  unfold lowestBoundary Published.lowestBoundary
  rw [same]
  split
  · rename_i empty
    exact .missing empty
  · rename_i p ps found
    rw [found]
    exact .found (Position.foldl_innermost_mem ps p) (Position.addr_foldl_innermost_le ps p)

/-- Installs these sweeps one after the other. -/
def installAll (tid : Nat) : List (KindId × Nat) → Roster → Except Fault Roster
  | [], r => .ok r
  | (k, i) :: ms, r =>
    match r.install tid k i with
    | .ok r => installAll tid ms r
    | .error x => .error x

theorem isSome_find?_iff : (r.find? k).isSome = true ↔ k ∈ r.kinds := by
  rw [Option.isSome_iff_ne_none, Ne, find?, List.lookup_eq_none_iff]
  simp [kinds]

/-- A sweep is installed behind the others, if its kind is new. -/
theorem install_eq_ok_iff :
    r.install tid k i = .ok r' ↔ k ∉ r.kinds ∧ r' = ⟨r.members ++ [(k, i)]⟩ := by
  unfold install
  by_cases known : (r.find? k).isSome = true
  · rw [if_pos known]
    exact iff_of_false nofun fun h => h.1 (isSome_find?_iff.1 known)
  · rw [if_neg known, Except.ok.injEq]
    rw [isSome_find?_iff] at known
    exact ⟨fun same => ⟨known, same.symm⟩, fun h => h.2.symm⟩

/-- Sweeps can be installed exactly if no two are of one kind, and then stand in the order in which
they were. -/
theorem installAll_eq_ok_iff (distinct : r.kinds.Nodup) :
    installAll tid ms r = .ok r' ↔
      r' = ⟨r.members ++ ms⟩ ∧ (r.kinds ++ ms.map (·.1)).Nodup := by
  induction ms generalizing r with
  | nil =>
    rw [installAll, Except.ok.injEq, List.append_nil, List.map_nil, List.append_nil]
    exact ⟨fun same => ⟨same.symm, distinct⟩, fun h => h.1.symm⟩
  | cons m ms ih =>
    obtain ⟨k, i⟩ := m
    unfold installAll
    split
    · rename_i r₁ installed
      obtain ⟨fresh, rfl⟩ := install_eq_ok_iff.1 installed
      have kinds : kinds ⟨r.members ++ [(k, i)]⟩ = r.kinds ++ [k] := kinds_install installed
      have distinct₁ : (r.kinds ++ [k]).Nodup := by
        rw [(List.perm_append_singleton k r.kinds).nodup_iff]
        exact List.nodup_cons.2 ⟨fresh, distinct⟩
      rw [ih (kinds ▸ distinct₁), kinds, List.append_assoc, List.append_assoc]
      rfl
    · rename_i x refused
      refine iff_of_false nofun ?_
      rintro ⟨-, apart⟩
      have fresh : k ∉ r.kinds := fun known =>
        (List.nodup_append.1 apart).2.2 k known k List.mem_cons_self rfl
      rw [install_eq_ok_iff.2 ⟨fresh, rfl⟩] at refused
      cases refused

theorem installAll_empty_eq_ok_iff :
    installAll tid ms ⟨[]⟩ = .ok r ↔ r = ⟨ms⟩ ∧ (ms.map (·.1)).Nodup :=
  installAll_eq_ok_iff (r := ⟨[]⟩) List.nodup_nil

/-- Some kind says that it may still have work to do at a position exactly if there is a lowest
boundary and the position does not lie inside it. In whatever order the same sweeps are installed,
this can be done, and the lowest boundary is the same. -/
theorem lowestBoundary_is_threshold (w : World ς) :
    (∀ (r : Roster) (p : Position),
      (∃ i ∈ r.sweeps, (w.sweeps.getD i default).published.isAbove p = true) ↔
        r.lowestBoundary w ≠ .none ∧ p.isInner (r.lowestBoundary w) = false) ∧
    ∀ (tid : Nat) (ms ms' : List (KindId × Nat)) (r : Roster),
      installAll tid ms ⟨[]⟩ = .ok r → ms'.Perm ms →
        ∃ r', installAll tid ms' ⟨[]⟩ = .ok r' ∧ r'.lowestBoundary w = r.lowestBoundary w := by
  constructor
  · intro r p
    have threshold := (r.lowestBoundary_isInnermostOf w).exists_le_iff none_notMem_boundaries p
    rw [Position.isInner, decide_eq_false_iff_not, Nat.not_lt, ← threshold]
    constructor
    · rintro ⟨i, hi, above⟩
      obtain ⟨found, le⟩ := Published.isAbove_iff.1 above
      exact ⟨_, mem_boundaries.2 ⟨found, i, hi, rfl⟩, le⟩
    · rintro ⟨b, hb, le⟩
      obtain ⟨found, i, hi, rfl⟩ := mem_boundaries.1 hb
      exact ⟨i, hi, Published.isAbove_iff.2 ⟨found, le⟩⟩
  · intro tid ms ms' r installed perm
    obtain ⟨rfl, apart⟩ := installAll_empty_eq_ok_iff.1 installed
    have apart' : (ms'.map (·.1)).Nodup := (perm.map _).nodup_iff.2 apart
    refine ⟨⟨ms'⟩, installAll_empty_eq_ok_iff.2 ⟨rfl, apart'⟩, ?_⟩
    refine (lowestBoundary_isInnermostOf _ w).unique (lowestBoundary_isInnermostOf _ w) ?_
    intro b
    simp only [mem_boundaries, sweeps, (perm.map _).mem_iff]

end Roster

/-- Three sweeps, the first of which has published no boundary. -/
def mixedWorld : World Bool :=
  { World.ofThread ⟨1, some [], true, 0, false, 0, 0, none, false⟩ (.cells [1, 1, 1]) false with
    sweeps := [.settled 1, ⟨⟨⟨30⟩, .pack 1 false⟩, none, 1⟩, ⟨⟨⟨20⟩, .pack 1 false⟩, none, 1⟩] }

/-- Backwards as well as forwards the third boundary is the lowest, and from there on some kind may
have work to do. -/
theorem lowestBoundary_is_threshold_of_mixed :
    ∃ r, Roster.installAll 1 [(⟨2⟩, 2), (⟨1⟩, 1), (⟨0⟩, 0)] ⟨[]⟩ = .ok r ∧
      r.lowestBoundary mixedWorld = ⟨20⟩ ∧
      ∃ i ∈ r.sweeps, (mixedWorld.sweeps.getD i default).published.isAbove ⟨20⟩ = true := by
  obtain ⟨threshold, reordered⟩ := Roster.lowestBoundary_is_threshold mixedWorld
  obtain ⟨r, installed, same⟩ :=
    reordered 1 [(⟨0⟩, 0), (⟨1⟩, 1), (⟨2⟩, 2)] [(⟨2⟩, 2), (⟨1⟩, 1), (⟨0⟩, 0)] _ rfl (by decide)
  have lowest : r.lowestBoundary mixedWorld = ⟨20⟩ := same.trans (by decide)
  refine ⟨r, installed, lowest, (threshold r ⟨20⟩).2 ?_⟩
  rw [lowest]
  decide

/-! ## What takes part -/

/-- A boundary is published if and only if the word with it does not say that all is over. -/
def Published.IsConsistent (q : Published) : Prop := q.boundary = .none ↔ q.word.isDone = true

namespace Sweep

variable {s s' : Sweep} {log log' : List Event}

/-- The campaign that was published last is not over, and is not the current one. -/
def isAbandoned (s : Sweep) (current : Epoch) : Bool :=
  s.isStale current && !s.published.word.isDone

/-- A campaign that is not over is in progress, or it has been abandoned. -/
theorem not_isDone_eq (s : Sweep) (current : Epoch) :
    (!s.published.word.isDone) = (s.phase current == .inProgress || s.isAbandoned current) := by
  unfold isAbandoned isStale phase ProgressWord.phase
  cases s.published.word.isOf current <;> cases s.published.word.isDone <;> rfl

theorem isConsistent_settled (e : Epoch) : (Published.settled e).IsConsistent := by
  simp [Published.IsConsistent, Published.settled]

theorem Publishes.isConsistent (published : s.Publishes log s' log')
    (now : s.published.IsConsistent) : s'.published.IsConsistent := by
  cases published with
  | boundary l hk left pos =>
    have found := Position.addr_pos_iff.1 pos
    simp [Published.IsConsistent, found]
  | ending l exhausted => exact isConsistent_settled s.epoch
  | stuck => exact now

theorem Starts.isConsistent {begun : Bool} (starts : s.Starts log begun s' log')
    (now : s.published.IsConsistent) : s'.published.IsConsistent := by
  cases starts with
  | idle i e l published => exact published.isConsistent now
  | dropped => exact now
  | installed i e l l' tid o fs passes filled published => exact published.isConsistent now

theorem Moves.isConsistent (moves : s.Moves log s' log') (now : s.published.IsConsistent) :
    s'.published.IsConsistent := by
  cases moves with
  | rest => exact now
  | settle hw published => exact published.isConsistent now
  | unwound => exact now
  | passed hk passes published asides => exact published.isConsistent now

theorem Turns.isConsistent (turns : s.Turns log s' log') (now : s.published.IsConsistent) :
    s'.published.IsConsistent := by
  cases turns with
  | looked => exact now
  | resumed moves => exact moves.isConsistent now
  | current i e fresh asides moves => exact moves.isConsistent now
  | renewed i e stale starts asides moves => exact moves.isConsistent (starts.isConsistent now)

end Sweep

/-- In every run, whatever the epochs and the positions are. -/
theorem Site.Reachable.isConsistent {ς ε : Type} {h : Host ς ε} {birth : Epoch} {site : Site ς}
    (r : Reachable h birth site) : site.sweep.published.IsConsistent :=
  r.preserved (P := fun s _ => s.published.IsConsistent) (Sweep.isConsistent_settled birth)
    fun now turns => turns.isConsistent now

namespace Roster

variable {ς ε : Type} {hosts : Nat → Host ς ε} {r : Roster} {w : World ς}

/-- Every sweep of the roster is as some run has left it, whatever the runs of the others. -/
def IsReached (hosts : Nat → Host ς ε) (r : Roster) (w : World ς) : Prop :=
  ∀ m ∈ r.members, (hosts m.2).kind = m.1 ∧ ∃ birth site,
    Site.Reachable (hosts m.2) birth site ∧ w.sweeps[m.2]? = some site.sweep

theorem IsReached.isConsistent (reached : r.IsReached hosts w) {m : KindId × Nat}
    (hm : m ∈ r.members) : (w.sweeps.getD m.2 default).published.IsConsistent := by
  obtain ⟨-, birth, site, reachable, here⟩ := reached m hm
  rw [List.getD_eq_getElem?_getD, here]
  exact reachable.isConsistent

/-- The boundaries that have been published are those of the campaigns that are not over. -/
theorem IsReached.boundaries_eq (reached : r.IsReached hosts w) :
    r.boundaries w = r.boundariesWhere w fun _ s => !s.published.word.isDone := by
  unfold boundaries boundariesWhere
  congr 1
  refine List.filter_congr fun m hm => ?_
  have consistent := reached.isConsistent hm
  rw [Published.IsConsistent, ← Position.isNone_iff] at consistent
  exact congrArg (!·) (Bool.eq_iff_iff.2 consistent)

theorem mem_boundariesWhere_or {P Q : KindId → Sweep → Bool} {b : Position} :
    (b ∈ r.boundariesWhere w fun k s => P k s || Q k s) ↔
      b ∈ r.boundariesWhere w P ∨ b ∈ r.boundariesWhere w Q := by
  simp only [mem_boundariesWhere, Bool.or_eq_true, or_and_right, and_or_left, exists_or]

/-- The boundaries of campaigns that are not over are those of the ones in progress and those of the
ones that have been abandoned. -/
theorem mem_boundariesWhere_not_isDone (now : KindId → Epoch) {b : Position} :
    (b ∈ r.boundariesWhere w fun _ s => !s.published.word.isDone) ↔
      (b ∈ r.boundariesWhere w fun k s => s.phase (now k) == .inProgress) ∨
        b ∈ r.boundariesWhere w fun k s => s.isAbandoned (now k) := by
  rw [← mem_boundariesWhere_or]
  simp only [← Sweep.not_isDone_eq]

/-- The lowest boundary of a roster is the innermost one of all campaigns that were published last
and are not over, current or not. It is the innermost one of those in progress exactly if no
campaign that has been abandoned has its boundary inside all of these. -/
theorem lowestBoundary_of_reached (reached : r.IsReached hosts w) (now : KindId → Epoch) :
    Position.IsInnermostOf (r.boundariesWhere w fun _ s => !s.published.word.isDone)
      (r.lowestBoundary w) ∧
    (Position.IsInnermostOf (r.boundariesWhere w fun k s => s.phase (now k) == .inProgress)
        (r.lowestBoundary w) ↔
      ∀ q ∈ r.boundariesWhere w fun k s => s.isAbandoned (now k),
        ∃ p ∈ r.boundariesWhere w fun k s => s.phase (now k) == .inProgress,
          p.addr ≤ q.addr) := by
  have innermost := r.lowestBoundary_isInnermostOf w
  have marked := r.none_notMem_boundaries (w := w)
  rw [reached.boundaries_eq] at innermost marked
  refine ⟨innermost, ?_⟩
  have subset : (r.boundariesWhere w fun k s => s.phase (now k) == .inProgress) ⊆
      r.boundariesWhere w fun _ s => !s.published.word.isDone :=
    fun b hb => (mem_boundariesWhere_not_isDone now).2 (.inl hb)
  rw [innermost.of_subset_iff marked subset]
  constructor
  · exact fun inside q hq => inside q ((mem_boundariesWhere_not_isDone now).2 (.inr hq))
  · intro inside q hq
    rcases (mem_boundariesWhere_not_isDone now).1 hq with own | abandoned
    · exact ⟨q, own, Nat.le_refl _⟩
    · exact inside q abandoned

end Roster

/-! ## A kind that has gone stale

Both kinds of a thread have started, and the second has taken one step more than the first when the
epoch of the first moves on. -/

namespace Site

/-- Each of two kinds has a host of its own. -/
def pairHosts (i : Nat) : Host Bool String := { moody with kind := ⟨UInt8.ofNat i⟩ }

/-- A new sweep of the second kind. -/
def secondFresh : Site Bool where
  sweep := .settled 0
  world := { fresh.world with log := [.epochRead ⟨1⟩ 0] }
  pending _ := none

/-- The epoch of the second kind moves on. -/
def secondMoved : Site Bool :=
  { secondFresh with world := { secondFresh.world with epochs := .cells [0, 1] } }

/-- The second kind makes an increment. -/
def secondStepped (site : Site Bool) : Site Bool :=
  (site.call (pairHosts 1) 0 .increment).turn (pairHosts 1) 0 ⟨.increment, site.world.log⟩

/-- The second kind has started and has taken one step more. -/
def secondAdvanced : Site Bool := secondMoved.secondStepped.secondStepped

theorem Reachable.secondStepped {site : Site Bool} (r : Reachable (pairHosts 1) 0 site)
    (free : site.pending 0 = none) : Reachable (pairHosts 1) 0 site.secondStepped :=
  (r.step (.call 0 .increment free)).step (.turn 0 _ rfl)

theorem reachable_secondAdvanced : Reachable (pairHosts 1) 0 secondAdvanced := by
  have made : Reachable (pairHosts 1) 0 secondFresh :=
    .created
      (w := .ofThread ⟨1, some fourFrames, true, 0, false, 0, 0, none, false⟩ (.cells [0]) false)
      rfl rfl
  have moved : Reachable (pairHosts 1) 0 secondMoved := made.step (.change _ rfl)
  exact (moved.secondStepped rfl).secondStepped rfl

end Site

namespace Roster

def pair : Roster := ⟨[(⟨0⟩, 0), (⟨1⟩, 1)]⟩

def pairWorld : World Bool :=
  { Site.fresh.world with
    epochs := .cells [2, 1]
    sweeps := [Site.begun.sweep, Site.secondAdvanced.sweep] }

theorem isReached_pair : pair.IsReached Site.pairHosts pairWorld := by
  intro m hm
  rcases List.mem_cons.1 hm with rfl | hm
  · exact ⟨rfl, 0, Site.begun, Site.reachable_begun, rfl⟩
  · cases List.mem_singleton.1 hm
    exact ⟨rfl, 0, Site.secondAdvanced, Site.reachable_secondAdvanced, rfl⟩

/-- Only the second kind is in progress. The lowest boundary is not its own, but that of the kind
that has gone stale. -/
theorem lowestBoundary_of_pair :
    (pair.boundariesWhere pairWorld fun k s =>
      s.phase (pairWorld.readEpoch k).1 == .inProgress) = [⟨20⟩] ∧
    pair.lowestBoundary pairWorld = ⟨10⟩ ∧
    ¬ Position.IsInnermostOf (pair.boundariesWhere pairWorld fun k s =>
      s.phase (pairWorld.readEpoch k).1 == .inProgress) (pair.lowestBoundary pairWorld) := by
  have current : (pair.boundariesWhere pairWorld fun k s =>
      s.phase (pairWorld.readEpoch k).1 == .inProgress) = [⟨20⟩] := by decide +kernel
  have abandoned : (pair.boundariesWhere pairWorld fun k s =>
      s.isAbandoned (pairWorld.readEpoch k).1) = [⟨10⟩] := by decide +kernel
  obtain ⟨-, exact_iff⟩ :=
    lowestBoundary_of_reached isReached_pair fun k => (pairWorld.readEpoch k).1
  refine ⟨current, by decide +kernel, ?_⟩
  rw [exact_iff, current, abandoned]
  decide

end Roster

end StackSweep
