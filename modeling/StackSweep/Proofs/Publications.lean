import StackSweep.Proofs.Keeping

/-!
# What has been published

The boundary and the word lie in memory side by side, where anyone may read them. A publication
stores first the one and then the other. What memory holds is read off the log, and so is the list
of all publications. Along that list campaigns never go backwards, a boundary moves outwards as long
as its campaign lasts, and it goes missing only with the end of the campaign, which is never taken
back.
-/

namespace StackSweep

/-- The boundary that memory holds. -/
def boundaryIn : List Event → Position
  | [] => .none
  | .boundaryStored _ b :: _ => b
  | _ :: earlier => boundaryIn earlier

/-- The word that memory holds. -/
def wordIn (birth : Epoch) : List Event → ProgressWord
  | [] => .pack birth true
  | .wordStored _ w :: _ => w
  | _ :: earlier => wordIn birth earlier

/-- Everything that has been published, latest first. It takes a word to complete a publication. -/
def publications (birth : Epoch) : List Event → List Published
  | [] => [.settled birth]
  | .wordStored _ w :: earlier => ⟨boundaryIn earlier, w⟩ :: publications birth earlier
  | _ :: earlier => publications birth earlier

namespace ProgressWord

theorem significant_epoch (w : ProgressWord) : w.epoch.significant = w.epoch := by
  apply UInt32.toNat_inj.1
  have := w.raw.toNat_lt
  rw [toNat_significant, epoch, UInt32.toNat_div]
  simp
  omega

/-- A word speaks of a campaign if its own epoch counts as equal. -/
theorem isOf_iff {w : ProgressWord} {e : Epoch} :
    w.isOf e = true ↔ w.epoch.significant = e.significant := by
  rw [significant_epoch]
  simp [isOf]

end ProgressWord

namespace Published

/-- What may be published for the same campaign after `p`. -/
structure Continues (q p : Published) : Prop where
  done : p.word.isDone = true → q.word.isDone = true
  boundary : q.boundary = .none ∨ p.boundary ≠ .none ∧ p.boundary.addr ≤ q.boundary.addr

theorem Continues.trans {p q r : Published} (h : q.Continues p) (h' : r.Continues q) :
    r.Continues p where
  done hp := h'.done (h.done hp)
  boundary := by
    rcases h'.boundary with missing | ⟨found, le⟩
    · exact .inl missing
    · rcases h.boundary with missing | ⟨found', le'⟩
      · exact absurd missing found
      · exact .inr ⟨found', Nat.le_trans le' le⟩

/-- The end of a campaign may follow anything. -/
theorem continues_settled (e : Epoch) (p : Published) : (settled e).Continues p :=
  ⟨fun _ => ProgressWord.isDone_pack _ _, .inl rfl⟩

end Published

section log

variable {birth : Epoch} {log log' : List Event} {vs : List (Visit × Verdict)}

theorem wordIn_mem_publications (birth : Epoch) (log : List Event) :
    ∃ p ∈ publications birth log, p.word = wordIn birth log := by
  induction log with
  | nil => exact ⟨_, List.mem_singleton_self _, rfl⟩
  | cons e log ih => cases e <;> simp_all [publications, wordIn]

theorem publications_suffix (birth : Epoch) (h : log <:+ log') :
    publications birth log <:+ publications birth log' := by
  obtain ⟨es, rfl⟩ := h
  induction es with
  | nil => exact List.suffix_refl _
  | cons e es ih =>
    cases e with
    | wordStored l w => exact ih.trans (List.suffix_cons _ _)
    | _ => exact ih

theorem publications_cons_aside {e : Event} (h : e.isAside = true) :
    publications birth (e :: log) = publications birth log := by
  cases e <;> simp_all [Event.isAside, publications]

theorem boundaryIn_cons_aside {e : Event} (h : e.isAside = true) :
    boundaryIn (e :: log) = boundaryIn log := by
  cases e <;> simp_all [Event.isAside, boundaryIn]

theorem wordIn_cons_aside {e : Event} (h : e.isAside = true) :
    wordIn birth (e :: log) = wordIn birth log := by
  cases e <;> simp_all [Event.isAside, wordIn]

/-- Visits publish nothing. -/
theorem Visited.publications_eq (birth : Epoch) (h : Visited log vs log') :
    publications birth log' = publications birth log ∧ boundaryIn log' = boundaryIn log ∧
      wordIn birth log' = wordIn birth log := by
  induction h with
  | refl => exact ⟨rfl, rfl, rfl⟩
  | aside _ ha ih =>
    rw [publications_cons_aside ha, boundaryIn_cons_aside ha, wordIn_cons_aside ha]
    exact ih
  | visit _ _ _ _ _ ih => exact ih

end log

namespace Published

/-- What holds of the publications whenever the lock of the sweep is free and `q` is published. -/
structure IsLatest (birth : Epoch) (q : Published) (log : List Event) : Prop where
  latest : (publications birth log).head? = some q
  boundary : boundaryIn log = q.boundary
  word : wordIn birth log = q.word
  consistent : ∀ p ∈ publications birth log, p.boundary = .none ↔ p.word.isDone = true
  past : ∀ p ∈ publications birth log,
    p.word.epoch = q.word.epoch ∨ p.word.epoch.IsPast (readings log)
  continued : (publications birth log).Pairwise fun later earlier =>
    earlier.word.epoch = later.word.epoch → later.Continues earlier
  ordered : (publications birth log).Pairwise fun later earlier =>
    later.word.epoch.NotBefore earlier.word.epoch (readings log)
  read : q.word.epoch.WasRead (readings log)

/-- What may be published next: something for the same campaign, or for one that is later. -/
structure IsNext (birth : Epoch) (q : Published) (log : List Event) : Prop where
  consistent : q.boundary = .none ↔ q.word.isDone = true
  past : ∀ p ∈ publications birth log,
    p.word.epoch = q.word.epoch ∨ p.word.epoch.IsPast (readings log)
  continued : ∀ p ∈ publications birth log, p.word.epoch = q.word.epoch → q.Continues p
  ordered : ∀ p ∈ publications birth log, q.word.epoch.NotBefore p.word.epoch (readings log)

variable {birth : Epoch} {p q : Published} {log log' : List Event}

theorem isLatest_settled (birth : Epoch) (k : KindId) :
    (settled birth).IsLatest birth [.epochRead k birth] where
  latest := rfl
  boundary := rfl
  word := rfl
  consistent := by simp [publications, settled]
  past := by simp [publications, settled]
  continued := List.pairwise_singleton _ _
  ordered := List.pairwise_singleton _ _
  read := by
    refine ⟨birth, List.mem_singleton_self _, ?_⟩
    rw [ProgressWord.significant_epoch]
    simp [settled]

theorem IsLatest.mem (h : q.IsLatest birth log) : q ∈ publications birth log :=
  List.mem_of_mem_head? h.latest

/-- The latest publication continues all others for its campaign, and no campaign is later. -/
theorem IsLatest.of_mem (h : q.IsLatest birth log) (hp : p ∈ publications birth log) :
    (p.word.epoch = q.word.epoch → p = q ∨ q.Continues p) ∧
      q.word.epoch.NotBefore p.word.epoch (readings log) := by
  obtain ⟨ps, hps⟩ := List.head?_eq_some_iff.1 h.latest
  have continued := h.continued
  have ordered := h.ordered
  rw [hps] at hp continued ordered
  rcases List.mem_cons.1 hp with rfl | hp
  · exact ⟨fun _ => .inl rfl, .refl h.read⟩
  · exact ⟨fun same => .inr ((List.pairwise_cons.1 continued).1 p hp same),
      (List.pairwise_cons.1 ordered).1 p hp⟩

/-- Something for the same campaign that continues what was published last. -/
theorem IsLatest.isNext (h : p.IsLatest birth log) (same : q.word.epoch = p.word.epoch)
    (consistent : q.boundary = .none ↔ q.word.isDone = true) (continues : q.Continues p) :
    q.IsNext birth log where
  consistent := consistent
  past r hr := same ▸ h.past r hr
  continued r hr hq := by
    rcases (h.of_mem hr).1 (hq.trans same) with rfl | continued
    · exact continues
    · exact continued.trans continues
  ordered r hr := same ▸ (h.of_mem hr).2

/-- The first publication for a campaign, while everything published is of the past. -/
theorem isNext_of_past {e : Epoch} {rs : List Epoch} (of : q.word.isOf e = true)
    (consistent : q.boundary = .none ↔ q.word.isDone = true) (latest : readings log = e :: rs)
    (nr : Epoch.NeverReturn (e :: rs))
    (past : ∀ p ∈ publications birth log, p.word.epoch.IsPast (e :: rs)) :
    q.IsNext birth log where
  consistent := consistent
  past p hp := .inr (latest ▸ past p hp)
  continued p hp same := by
    have other := (past p hp).2 e rfl
    rw [same] at other
    exact absurd (ProgressWord.isOf_iff.1 of).symm other
  ordered p hp := by
    rw [latest]
    exact (Epoch.notBefore_head nr (past p hp).1).congr (ProgressWord.isOf_iff.1 of).symm

theorem IsLatest.publish (h : p.IsLatest birth log) (next : q.IsNext birth log)
    (read : readings log' = readings log)
    (latest : publications birth log' = q :: publications birth log)
    (boundary : boundaryIn log' = q.boundary) (word : wordIn birth log' = q.word) :
    q.IsLatest birth log' where
  latest := by rw [latest, List.head?_cons]
  boundary := boundary
  word := word
  consistent := by
    rw [latest]
    exact List.forall_mem_cons.2 ⟨next.consistent, h.consistent⟩
  past := by
    rw [latest, read]
    exact List.forall_mem_cons.2 ⟨.inl rfl, next.past⟩
  continued := by
    rw [latest]
    exact List.pairwise_cons.2 ⟨next.continued, h.continued⟩
  ordered := by
    rw [latest, read]
    exact List.pairwise_cons.2 ⟨next.ordered, h.ordered⟩
  read := by
    rw [read]
    exact (next.ordered p h.mem).1

theorem IsLatest.visited {vs : List (Visit × Verdict)} (h : q.IsLatest birth log)
    (seen : Visited log vs log') : q.IsLatest birth log' := by
  obtain ⟨same, boundary, word⟩ := seen.publications_eq birth
  have read := seen.readings_eq
  obtain ⟨h₁, h₂, h₃, h₄, h₅, h₆, h₇, h₈⟩ := h
  rw [← same] at h₁ h₄ h₅ h₆ h₇
  rw [← read] at h₅ h₇ h₈
  exact ⟨h₁, boundary.trans h₂, word.trans h₃, h₄, h₅, h₆, h₇, h₈⟩

theorem IsLatest.epochRead {e : Epoch} (h : q.IsLatest birth log) (i : KindId)
    (nr : Epoch.NeverReturn (e :: readings log)) : q.IsLatest birth (.epochRead i e :: log) where
  latest := h.latest
  boundary := h.boundary
  word := h.word
  consistent := h.consistent
  past p hp := (h.past p hp).imp_right fun past => past.cons nr
  continued := h.continued
  ordered := h.ordered.imp fun notBefore => notBefore.cons e
  read := h.read.cons e

/-- An entry that tells of no reading and no publication. -/
theorem IsLatest.started (h : q.IsLatest birth log) (l : Label) (e : Epoch) :
    q.IsLatest birth (.started l e :: log) :=
  ⟨h.latest, h.boundary, h.word, h.consistent, h.past, h.continued, h.ordered, h.read⟩

theorem IsLatest.walk (h : q.IsLatest birth log) (tid : Nat) (o : WalkOptions) (fs : List Frame) :
    q.IsLatest birth (.walk tid o fs :: log) :=
  ⟨h.latest, h.boundary, h.word, h.consistent, h.past, h.continued, h.ordered, h.read⟩

theorem IsLatest.installed (h : q.IsLatest birth log) (l : Label) (e : Epoch) :
    q.IsLatest birth (.installed l e :: log) :=
  ⟨h.latest, h.boundary, h.word, h.consistent, h.past, h.continued, h.ordered, h.read⟩

/-- Once another epoch than that of the latest word is read, every publication is of the past. -/
theorem IsLatest.past_of_stale {r : Epoch} (h : q.IsLatest birth log)
    (nr : Epoch.NeverReturn (r :: readings log)) (stale : q.word.isOf r = false) :
    ∀ p ∈ publications birth log, p.word.epoch.IsPast (r :: readings log) := by
  intro p hp
  rcases h.past p hp with same | past
  · rw [same]
    refine h.read.isPast ?_
    intro own
    rw [ProgressWord.isOf_iff.2 own.symm] at stale
    cases stale
  · exact past.cons nr

end Published

namespace Sweep

variable {birth : Epoch} {s s' : Sweep} {log log' : List Event}

/-- Everything that is known of a sweep whenever it is not being started or moved. -/
structure Known (birth : Epoch) (s : Sweep) (log : List Event) : Prop where
  orderly : Orderly log
  accounted : s.Accounted (attempts birth log)
  dated : s.IsDated birth log
  kept : s.Kept birth log
  latest : s.published.IsLatest birth log

/-! ## Along a run -/

theorem Publishes.isLatest (published : s.Publishes log s' log')
    (h : s.published.IsLatest birth log)
    (underWay : ∀ k, s.walk = some k → k.ahead ≠ [] → 0 < k.trail.trailing.addr →
      Published.IsNext birth ⟨k.trail.trailing, .pack s.epoch false⟩ log)
    (ended : (Published.settled s.epoch).IsNext birth log) : s'.published.IsLatest birth log' := by
  cases published with
  | boundary l hk left pos => exact h.publish (underWay _ hk left pos) rfl rfl rfl rfl
  | ending l exhausted => split <;> exact h.publish ended rfl rfl rfl rfl
  | stuck => exact h

/-- Going on with the campaign of the sweep. -/
theorem isLatest_moves (known : s.Known birth log) (moves : s.Moves log s' log') :
    s'.published.IsLatest birth log' := by
  obtain ⟨ord, acc, -, kept, h⟩ := known
  have own (d : Bool) : (ProgressWord.pack s.epoch d).epoch = s.published.word.epoch := by
    have := ProgressWord.isOf_iff.1 kept.word
    rw [ProgressWord.significant_epoch] at this
    rw [ProgressWord.epoch_pack, this]
  have ended {log₁ : List Event} (h₁ : s.published.IsLatest birth log₁) :
      (Published.settled s.epoch).IsNext birth log₁ :=
    h₁.isNext (own true) (by simp [Published.settled]) (Published.continues_settled _ _)
  cases moves with
  | rest => exact h
  | settle hw published =>
    refine published.isLatest h ?_ (ended h)
    intro k hk
    rw [hw] at hk
    cases hk
  | unwound hk passes =>
    obtain ⟨vs, seen, -⟩ := passes
    exact h.visited seen
  | @passed k k' log₁ _ _ _ hk passes published asides =>
    obtain ⟨a, as, fs, has, hs, hi, he, tr⟩ := acc.follows.of_walk hk
    have asc : Ascending fs := ord.of_snapshot (has ▸ List.mem_cons_self) hs
    have old (left : k'.ahead ≠ []) := kept.underWay k hk (passes.ahead_ne_nil tr left)
    obtain ⟨vs, seen, -, led⟩ := passes
    have within := ((led fs a.visits tr).2 asc).1.1
    have h₁ := h.visited seen
    refine (published.isLatest h₁ ?_ (ended h₁)).visited asides
    intro k'' hk'' left pos
    cases hk''
    obtain ⟨notDone, le, -, -, -⟩ := old left
    have found : s.published.boundary ≠ .none := by
      rw [Ne, kept.boundary, notDone]
      exact Bool.false_ne_true
    refine h₁.isNext (own false) ?_ ⟨?_, .inr ⟨found, Nat.le_trans le within⟩⟩
    · simpa using Position.addr_pos_iff.1 pos
    · simp [notDone]

/-- A start, while everything published is of the past. -/
theorem isLatest_starts {begun : Bool} (h : s.published.IsLatest birth log)
    (past : ∀ p ∈ publications birth log, p.word.epoch.IsPast (readings log))
    (nr : Epoch.NeverReturn (readings log')) (starts : s.Starts log begun s' log') :
    s'.published.IsLatest birth log' := by
  have first {e : Epoch} {q : Published} {log₁ : List Event} (of : q.word.isOf e = true)
      (consistent : q.boundary = .none ↔ q.word.isDone = true)
      (same : publications birth log₁ = publications birth log)
      (read : readings log₁ = e :: readings log)
      (nr' : Epoch.NeverReturn (e :: readings log)) : q.IsNext birth log₁ := by
    refine Published.isNext_of_past of consistent read nr' ?_
    rw [same]
    exact fun p hp => (past p hp).cons nr'
  have of (e : Epoch) (d : Bool) : (ProgressWord.pack e d).isOf e = true :=
    ProgressWord.isOf_pack.2 rfl
  cases starts with
  | idle i e l published =>
    have nr' := nr.of_suffix (readings_suffix published.suffix)
    refine published.isLatest ((h.epochRead i nr').started l e) nofun ?_
    exact first (of e true) (by simp [Published.settled]) rfl rfl nr'
  | dropped i e l tid o fs passes asides =>
    have nr' : Epoch.NeverReturn (e :: readings log) :=
      nr.of_suffix (readings_suffix (passes.suffix.trans asides.suffix))
    obtain ⟨vs, seen, -⟩ := passes
    exact ((((h.epochRead i nr').started l e).walk tid o fs).visited seen).visited asides
  | installed i e l l' tid o fs passes filled published =>
    obtain ⟨vs, seen, -⟩ := passes
    have nr' : Epoch.NeverReturn (e :: readings log) :=
      nr.of_suffix (readings_suffix (seen.suffix.trans (.trans ⟨[_], rfl⟩ published.suffix)))
    have h₁ := (((h.epochRead i nr').started l e).walk tid o fs).visited seen
    have same := (seen.publications_eq birth).1
    have read := seen.readings_eq
    refine published.isLatest (h₁.installed l' e) ?_ ?_
    · intro k' _ _ pos
      exact first (of e false) (by simpa using Position.addr_pos_iff.1 pos) same read nr'
    · exact first (of e true) (by simp [Published.settled]) same read nr'

/-! ## Phases of a turn -/

theorem Known.read {e : Epoch} {i : KindId} (h : s.Known birth log)
    (ord : Orderly (.epochRead i e :: log)) : s.Known birth (.epochRead i e :: log) where
  orderly := ord
  accounted := h.accounted
  dated := isDated_read h.dated i ord.neverReturn
  kept := kept_read h.kept i ord.neverReturn
  latest := h.latest.epochRead i ord.neverReturn

theorem Known.asides (h : s.Known birth log) (asides : Visited log [] log') (ord : Orderly log') :
    s.Known birth log' where
  orderly := ord
  accounted := by
    rw [asides.attempts_same]
    exact h.accounted
  dated := isDated_visited h.dated asides
  kept := kept_asides h.kept asides
  latest := h.latest.visited asides

theorem Known.starts {begun : Bool} {i : KindId} {e : Epoch} (h : s.Known birth log)
    (stale : s.isStale e = true) (starts : s.Starts (.epochRead i e :: log) begun s' log')
    (ord : Orderly log') : s'.Known birth log' := by
  have read := h.read (ord.of_suffix starts.suffix)
  have other : s.published.word.isOf e = false := by simpa [isStale] using stale
  have nr := read.orderly.neverReturn
  refine ⟨ord, accounted_starts read.accounted starts, ?_, ?_, ?_⟩
  · exact isDated_starts read.dated (h.dated.past_of_stale nr other) starts ord.neverReturn
  · exact kept_renewed h.kept h.accounted h.dated ord stale starts
  · exact isLatest_starts read.latest (h.latest.past_of_stale nr other) ord.neverReturn starts

theorem Known.ensureStarted {ς ε : Type} {h : Host ς ε} {w : World ς} (known : s.Known birth w.log)
    (hv : h.pacing.Valid) (context : Option Nat)
    (ord : Orderly (s.ensureStarted h context w).2.2.log) :
    (s.ensureStarted h context w).2.1.Known birth (s.ensureStarted h context w).2.2.log := by
  unfold Sweep.ensureStarted at ord ⊢
  by_cases stale : s.isStale (w.readEpoch h.kind).1 = true
  · simp only [stale, if_true] at ord ⊢
    obtain ⟨begun, starts, -⟩ := starts_start h hv context s (w.readEpoch h.kind).2
    exact known.starts stale starts ord
  · rw [Bool.not_eq_true] at stale
    simp only [stale, Bool.false_eq_true, if_false] at ord ⊢
    exact known.read ord

/-- A turn reads the epoch, starts the campaign anew and moves the walk, in this order. Whatever all
of that preserves is preserved by the turn. -/
theorem Turns.preserves {P : Sweep → List Event → Prop} (turns : s.Turns log s' log')
    (known : s.Known birth log) (ord : Orderly log') (now : P s log)
    (read : ∀ {i e}, s.Known birth (.epochRead i e :: log) → P s (.epochRead i e :: log))
    (asides : ∀ {s₁ log₁ log₂}, P s₁ log₁ → Visited log₁ [] log₂ → P s₁ log₂)
    (starts : ∀ {i e begun s₁ log₁}, s.isStale e = true →
      s.Starts (.epochRead i e :: log) begun s₁ log₁ → log₁ <:+ log' → P s₁ log₁)
    (moves : ∀ {s₁ log₁}, P s₁ log₁ → s₁.Known birth log₁ → s₁.Moves log₁ s' log' → P s' log') :
    P s' log' := by
  cases turns with
  | looked => exact read (known.read ord)
  | resumed moved => exact moves now known moved
  | current i e _ aside moved =>
    have ord₁ := ord.of_suffix moved.suffix
    have known₁ := known.read (ord₁.of_suffix aside.suffix)
    exact moves (asides (read known₁) aside) (known₁.asides aside ord₁) moved
  | renewed i e stale started aside moved =>
    have suffix := aside.suffix.trans moved.suffix
    have known₁ := known.starts stale started (ord.of_suffix suffix)
    have known₂ := known₁.asides aside (ord.of_suffix moved.suffix)
    exact moves (asides (starts stale started suffix) aside) known₂ moved

theorem isLatest_turns (known : s.Known birth log) (ord : Orderly log')
    (turns : s.Turns log s' log') : s'.published.IsLatest birth log' := by
  refine turns.preserves (P := fun s log => s.published.IsLatest birth log) known ord
    known.latest ?_ ?_ ?_ ?_
  · exact fun known₁ => known₁.latest
  · exact fun latest asides => latest.visited asides
  · intro i e begun s₁ log₁ stale starts suffix
    exact (known.starts stale starts (ord.of_suffix suffix)).latest
  · exact fun _ known₁ moves => isLatest_moves known₁ moves

end Sweep

end StackSweep
