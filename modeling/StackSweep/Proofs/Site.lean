import Mathlib.Logic.Relation
import StackSweep.Sweep.Call
import StackSweep.Sweep.Creation
import StackSweep.Proofs.Endings
import StackSweep.Proofs.Publications

/-!
# Sites

A site is a sweep with everybody who works on it. Any number of parties call its operations. The
lock makes their turns atomic and nothing more: between two turns of one party the others may take
any number of theirs, and the world may become whatever it likes. It may also do so during a turn,
at the hands of the processor.
-/

namespace StackSweep

/-- A call that is not over. -/
structure Pending where
  /-- What it does in its next turn. -/
  stage : Stage
  /-- The log as it was when the call was made. -/
  since : List Event

structure Site (ς : Type) where
  sweep : Sweep
  world : World ς
  /-- The call that each party is in, if it is in one. -/
  pending : Nat → Option Pending

namespace Turn

/-- The stage that is left to do after the turn. -/
def next? {ε : Type} : Turn ε → Option Stage
  | .finished _ => none
  | .onward next => some next
  | .yielded next => some next

end Turn

namespace Opening

/-- The stage that a call wants the lock for. -/
def stage? : Opening → Option Stage
  | .settled => none
  | .needs stage => some stage

end Opening

namespace Site

variable {ς ε : Type}

/-- A party is now in this call, or in none. -/
def assign (site : Site ς) (p : Nat) (b : Option Pending) : Site ς :=
  { site with pending := fun q => if q = p then b else site.pending q }

/-- A party makes a call and does the part of it that needs no lock. -/
def call (h : Host ς ε) (p : Nat) (c : Call) (site : Site ς) : Site ς :=
  let r := c.openWith h site.sweep.published site.world
  { site with world := r.2 }.assign p (r.1.stage?.map fun stage => ⟨stage, site.world.log⟩)

/-- A party takes its next turn. -/
def turn (h : Host ς ε) (p : Nat) (b : Pending) (site : Site ς) : Site ς :=
  let r := b.stage.turn h site.sweep site.world
  { site with sweep := r.2.1, world := r.2.2 }.assign p
    (r.1.next?.map fun stage => ⟨stage, b.since⟩)

/-- What can happen next. -/
inductive Step (h : Host ς ε) (site : Site ς) : Site ς → Prop
  /-- The world changes. The log of the sweep stays. -/
  | change (w : World ς) : w.log = site.world.log → Step h site { site with world := w }
  | call (p : Nat) (c : Call) : site.pending p = none → Step h site (site.call h p c)
  | turn (p : Nat) (b : Pending) : site.pending p = some b → Step h site (site.turn h p b)

/-- What can become of a sweep that was made when `birth` was the epoch. -/
inductive Reachable (h : Host ς ε) (birth : Epoch) : Site ς → Prop
  | created {w w' : World ς} : w.log = [] →
      Sweep.create h.kind h.pacing w = (.ok (.settled birth), w') →
      Reachable h birth ⟨.settled birth, w', fun _ => none⟩
  | step {site site' : Site ς} : Reachable h birth site → Step h site site' →
      Reachable h birth site'

/-- The epoch as it would be read now. -/
def current (h : Host ς ε) (site : Site ς) : Epoch := (site.world.readEpoch h.kind).1

/-- The authority has never returned to an epoch, nor would it if the epoch were read now, and
positions ascend along all stacks that were walked. -/
def IsOrderly (h : Host ς ε) (site : Site ς) : Prop := Orderly (site.world.readEpoch h.kind).2.log

@[simp] theorem pending_assign (site : Site ς) (p : Nat) (b : Option Pending) (q : Nat) :
    (site.assign p b).pending q = if q = p then b else site.pending q := rfl

@[simp] theorem sweep_call (h : Host ς ε) (p : Nat) (c : Call) (site : Site ς) :
    (site.call h p c).sweep = site.sweep := rfl

@[simp] theorem sweep_turn (h : Host ς ε) (p : Nat) (b : Pending) (site : Site ς) :
    (site.turn h p b).sweep = (b.stage.turn h site.sweep site.world).2.1 := rfl

@[simp] theorem world_turn (h : Host ς ε) (p : Nat) (b : Pending) (site : Site ς) :
    (site.turn h p b).world = (b.stage.turn h site.sweep site.world).2.2 := rfl

/-- Without the lock a call reads the epoch at most. -/
theorem log_call (h : Host ς ε) (p : Nat) (c : Call) (site : Site ς) :
    (site.call h p c).world.log = site.world.log ∨
      (site.call h p c).world.log = .epochRead h.kind (site.current h) :: site.world.log := by
  cases c with
  | request => exact .inr rfl
  | _ => exact .inl rfl

theorem log_created {k : KindId} {p : Pacing} {s : Sweep} {w w' : World ς} (empty : w.log = [])
    (made : Sweep.create k p w = (.ok s, w')) : w'.log = [.epochRead k s.epoch] := by
  unfold Sweep.create at made
  split at made
  · cases made
  · split at made <;> cases made
    simp only [empty]
    rfl

theorem Reachable.valid {h : Host ς ε} {birth : Epoch} {site : Site ς}
    (r : Reachable h birth site) : h.pacing.Valid := by
  induction r with
  | created _ made => exact Sweep.valid_of_create made
  | step _ _ ih => exact ih

/-- A step leaves the sweep and its log alone, or it amounts to a turn. -/
theorem Step.unchanged_or_turns {h : Host ς ε} {site site' : Site ς} (st : Step h site site')
    (hv : h.pacing.Valid) :
    site'.sweep = site.sweep ∧ site'.world.log = site.world.log ∨
      Sweep.Turns site.sweep site.world.log site'.sweep site'.world.log := by
  cases st with
  | change w same => exact .inl ⟨rfl, same⟩
  | call p c _ =>
    rw [sweep_call]
    rcases log_call h p c site with same | same
    · exact .inl ⟨rfl, same⟩
    · rw [same]
      exact .inr (.looked _ _)
  | turn p b _ => exact .inr (Sweep.turns_turn h hv b.stage _ _)

/-- What every turn preserves holds at every reachable site. -/
theorem Reachable.preserved {P : Sweep → List Event → Prop} {h : Host ς ε} {birth : Epoch}
    {site : Site ς} (r : Reachable h birth site)
    (made : P (.settled birth) [.epochRead h.kind birth])
    (turns : ∀ {s log s' log'}, P s log → Sweep.Turns s log s' log' → P s' log') :
    P site.sweep site.world.log := by
  induction r with
  | created empty hc =>
    simp only [log_created empty hc]
    exact made
  | step r st ih =>
    rcases st.unchanged_or_turns r.valid with ⟨sweep, log⟩ | turned
    · rwa [sweep, log]
    · exact turns ih turned

/-! ## Runs -/

theorem Step.suffix {h : Host ς ε} {site site' : Site ς} (st : Step h site site')
    (hv : h.pacing.Valid) : site.world.log <:+ site'.world.log := by
  rcases st.unchanged_or_turns hv with ⟨-, same⟩ | turned
  · exact ⟨[], same.symm⟩
  · exact turned.suffix

theorem Reachable.steps {h : Host ς ε} {birth : Epoch} {site site' : Site ς}
    (r : Reachable h birth site) (run : Relation.ReflTransGen (Step h) site site') :
    Reachable h birth site' := by
  induction run with
  | refl => exact r
  | tail _ st ih => exact ih.step st

theorem Reachable.suffix {h : Host ς ε} {birth : Epoch} {site site' : Site ς}
    (r : Reachable h birth site) (run : Relation.ReflTransGen (Step h) site site') :
    site.world.log <:+ site'.world.log := by
  induction run with
  | refl => exact List.suffix_refl _
  | tail run st ih => exact ih.trans (st.suffix (r.steps run).valid)

section invariants

variable {h : Host ς ε} {birth : Epoch} {site : Site ς}

theorem Reachable.accounted (r : Reachable h birth site) :
    site.sweep.Accounted (attempts birth site.world.log) :=
  r.preserved (P := fun s log => s.Accounted (attempts birth log)) (Sweep.accounted_settled birth)
    Sweep.accounted_turns

theorem Reachable.isDated (r : Reachable h birth site)
    (nr : Epoch.NeverReturn (readings site.world.log)) :
    site.sweep.IsDated birth site.world.log := by
  revert nr
  refine r.preserved (P := fun s log => Epoch.NeverReturn (readings log) → s.IsDated birth log)
    (fun _ => Dated.settled birth true) ?_
  intro s log s' log' ih turns nr
  exact Sweep.isDated_turns (ih (nr.of_suffix (readings_suffix turns.suffix))) turns nr

/-- What every turn preserves of a sweep that is accounted for and dated. -/
theorem Reachable.preserved_dated {P : Sweep → List Event → Prop} (r : Reachable h birth site)
    (made : P (.settled birth) [.epochRead h.kind birth])
    (turns : ∀ {s log s' log'}, P s log → s.Accounted (attempts birth log) → s.IsDated birth log →
      Epoch.NeverReturn (readings log') → s.Turns log s' log' → P s' log')
    (nr : Epoch.NeverReturn (readings site.world.log)) : P site.sweep site.world.log := by
  have inv : site.sweep.Accounted (attempts birth site.world.log) ∧
      (Epoch.NeverReturn (readings site.world.log) →
        site.sweep.IsDated birth site.world.log ∧ P site.sweep site.world.log) := by
    refine r.preserved (P := fun s log => s.Accounted (attempts birth log) ∧
      (Epoch.NeverReturn (readings log) → s.IsDated birth log ∧ P s log)) ?_ ?_
    · exact ⟨Sweep.accounted_settled birth, fun _ => ⟨Dated.settled birth true, made⟩⟩
    · rintro s log s' log' ⟨acc, ih⟩ turned
      refine ⟨Sweep.accounted_turns acc turned, ?_⟩
      intro nr
      obtain ⟨dated, holds⟩ := ih (nr.of_suffix (readings_suffix turned.suffix))
      exact ⟨Sweep.isDated_turns dated turned nr, turns holds acc dated nr turned⟩
  exact (inv.2 nr).2

theorem Reachable.sincere (r : Reachable h birth site)
    (nr : Epoch.NeverReturn (readings site.world.log)) :
    site.sweep.Sincere birth site.world.log :=
  r.preserved_dated (P := Sweep.Sincere birth) (Sweep.sincere_settled birth h.kind)
    Sweep.sincere_turns nr

/-- What every turn preserves of a sweep about which everything else is in order. -/
theorem Reachable.preserved_kept {P : Sweep → List Event → Prop} (r : Reachable h birth site)
    (made : P (.settled birth) [.epochRead h.kind birth])
    (turns : ∀ {s log s' log'}, P s log → s.Kept birth log → s.Accounted (attempts birth log) →
      s.IsDated birth log → Orderly log' → s.Turns log s' log' → P s' log')
    (ord : Orderly site.world.log) :
    site.sweep.Kept birth site.world.log ∧ P site.sweep site.world.log := by
  refine r.preserved_dated
    (P := fun s log => (∀ fs ∈ walked log, Ascending fs) → s.Kept birth log ∧ P s log) ?_ ?_
    ord.neverReturn ord.ascending
  · exact fun _ => ⟨Sweep.kept_settled birth h.kind, made⟩
  · intro s log s' log' ih acc dated nr turned asc
    have ord' : Orderly log' := ⟨nr, asc⟩
    obtain ⟨kept, holds⟩ := ih (ord'.of_suffix turned.suffix).ascending
    exact ⟨Sweep.kept_turns kept acc dated ord' turned, turns holds kept acc dated ord' turned⟩

theorem Reachable.kept (r : Reachable h birth site) (ord : Orderly site.world.log) :
    site.sweep.Kept birth site.world.log :=
  (r.preserved_kept (P := fun _ _ => True) trivial (fun _ _ _ _ _ _ => trivial) ord).1

/-- What every turn preserves of a sweep of which everything is known. -/
theorem Reachable.preserved_known {P : Sweep → List Event → Prop} (r : Reachable h birth site)
    (made : P (.settled birth) [.epochRead h.kind birth])
    (turns : ∀ {s log s' log'}, P s log → s.Known birth log → Orderly log' → s.Turns log s' log' →
      P s' log')
    (ord : Orderly site.world.log) :
    site.sweep.Known birth site.world.log ∧ P site.sweep site.world.log := by
  have ⟨kept, latest, holds⟩ := r.preserved_kept
    (P := fun s log => s.published.IsLatest birth log ∧ P s log)
    ⟨Published.isLatest_settled birth h.kind, made⟩ ?_ ord
  · exact ⟨⟨ord, r.accounted, r.isDated ord.neverReturn, kept, latest⟩, holds⟩
  · rintro s log s' log' ⟨latest, holds⟩ kept acc d ord' turned
    have known : s.Known birth log := ⟨ord'.of_suffix turned.suffix, acc, d, kept, latest⟩
    exact ⟨Sweep.isLatest_turns known ord' turned, turns holds known ord' turned⟩

theorem Reachable.known (r : Reachable h birth site) (ord : Orderly site.world.log) :
    site.sweep.Known birth site.world.log :=
  (r.preserved_known (P := fun _ _ => True) trivial (fun _ _ _ _ => trivial) ord).1

end invariants

/-! ## A run to look at

A drain gives up the lock after its first turn. Before it gets the lock back, the epoch moves on,
and another party fails to start the next campaign. -/

/-- A processor that refuses every frame while it is told to. -/
def moody : Host Bool String where
  kind := ⟨0⟩
  pacing := ⟨2, 1⟩
  onIteration := false
  hasBarrier f _ := f.barrier
  process _ w := (if w.rest then .failed "refused" else .ok (), w)
  describe e := e
  waiters _ := 0

/-- All frames but the outermost stop an increment. -/
def fourFrames : List Frame :=
  [⟨0, ⟨10⟩, true, false⟩, ⟨1, ⟨20⟩, true, false⟩, ⟨2, ⟨30⟩, true, false⟩, ⟨3, ⟨40⟩, false, false⟩]

/-- A new sweep of a thread with these frames. -/
def fresh : Site Bool where
  sweep := .settled 0
  world :=
    ((World.ofThread ⟨1, some fourFrames, true, 0, false, 0, 0, none, false⟩ (.cells [0])
      false).readEpoch moody.kind).2
  pending _ := none

/-- The epoch moves on, and the processor is told whether to refuse. -/
def moveOn (e : Epoch) (refuses : Bool) (site : Site Bool) : Site Bool :=
  { site with world := { site.world with epochs := .cells [e], rest := refuses } }

/-- A party takes its next turn, if it is in a call. -/
def next (p : Nat) (site : Site Bool) : Site Bool :=
  (site.pending p).elim site fun b => site.turn moody p b

/-- A drain has taken its first turn. -/
def yielded : Site Bool := ((fresh.moveOn 1 false).call moody 0 (.drain none)).next 0

/-- A start has failed before the drain resumes. -/
def bereft : Site Bool := ((yielded.moveOn 2 true).call moody 1 .increment).next 1

/-- A party makes an increment. -/
def stepped (site : Site Bool) : Site Bool := (site.call moody 0 .increment).next 0

/-- The next campaign has begun, with as few steps as a pacing may ask for. -/
def begun : Site Bool := (fresh.moveOn 1 false).stepped

/-- One step more. -/
def advanced : Site Bool := begun.stepped

/-- The whole stack has been processed. -/
def completed : Site Bool := advanced.stepped

theorem reachable_fresh : Reachable moody 0 fresh :=
  .created
    (w := .ofThread ⟨1, some fourFrames, true, 0, false, 0, 0, none, false⟩ (.cells [0]) false)
    rfl rfl

theorem Reachable.moveOn {site : Site Bool} (r : Reachable moody 0 site) (e : Epoch)
    (refuses : Bool) : Reachable moody 0 (site.moveOn e refuses) :=
  r.step (.change _ rfl)

theorem run_next (site : Site Bool) (p : Nat) :
    Relation.ReflTransGen (Step moody) site (site.next p) := by
  unfold Site.next
  cases hb : site.pending p with
  | none => exact .refl
  | some b => exact .single (.turn p b hb)

theorem run_stepped {site : Site Bool} (free : site.pending 0 = none) :
    Relation.ReflTransGen (Step moody) site site.stepped :=
  .trans (.single (.call 0 .increment free)) (run_next _ 0)

theorem reachable_yielded : Reachable moody 0 yielded :=
  ((reachable_fresh.moveOn 1 false).step (.call 0 (.drain none) rfl)).steps (run_next _ 0)

theorem orderly_yielded : yielded.IsOrderly moody := ⟨by decide +kernel, by decide +kernel⟩

theorem reachable_bereft : Reachable moody 0 bereft := by
  refine ((reachable_yielded.moveOn 2 true).step (.call 1 .increment ?_)).steps (run_next _ 1)
  rfl

theorem reachable_begun : Reachable moody 0 begun :=
  (reachable_fresh.moveOn 1 false).steps (run_stepped rfl)

theorem reachable_advanced : Reachable moody 0 advanced :=
  reachable_begun.steps (run_stepped rfl)

theorem reachable_completed : Reachable moody 0 completed :=
  reachable_advanced.steps (run_stepped rfl)

end Site

end StackSweep
