import StackSweep.Proofs.Refusals
import StackSweep.Proofs.Site

/-!
# Starts

Which turns start a campaign, and what a start comes to. It reads the epoch, walks the stack as it
is at that moment and takes the first steps. If one of these does not succeed the start ends as that
step did, and what is published is left alone. A turn that starts nothing begins no walk.
-/

namespace StackSweep

variable {ς ε : Type}

namespace Stage

/-- The context of the campaign that the next turn of the stage starts if the sweep is stale. Stages
that only look start none, and neither does a drain that resumes. -/
def context? : Stage → Option (Option Nat)
  | .increment | .start | .approach _ => some none
  | .drain context => some context
  | .resume _ | .secure _ | .judge _ | .locate => none

/-- The stage only looks at the sweep. -/
def IsLook : Stage → Prop
  | .secure _ | .judge _ | .locate => True
  | _ => False

end Stage

namespace Sweep

/-- The world as a start finds it when it begins to walk. -/
def announced (h : Host ς ε) (w : World ς) : World ς :=
  (w.readEpoch h.kind).2.record (.started (h.label w) (w.readEpoch h.kind).1)

/-- The first steps of a campaign, over the stack as it is now. -/
def firstSteps (h : Host ς ε) (context : Option Nat) (s : Sweep) (w : World ς) :
    Outcome ε Unit × Walk × World ς :=
  Walk.steps h ⟨context, s.published⟩ h.pacing.initialFrames (.ofFrames w.thread.frames)
    ((announced h w).walkStack .incremental).2

/-- What a sweep publishes of itself. -/
def toPublish (s : Sweep) : Published :=
  match s.walk with
  | some k => if k.hasNext then ⟨k.trail.trailing, .pack s.epoch false⟩ else .settled s.epoch
  | none => .settled s.epoch

theorem isOf_toPublish (s : Sweep) : s.toPublish.word.isOf s.epoch = true := by
  unfold toPublish
  split
  · split <;> exact ProgressWord.isOf_pack.2 rfl
  · exact ProgressWord.isOf_pack.2 rfl

/-- A conclusion that succeeds publishes where the walk stands. One that unwinds publishes nothing.
-/
theorem conclude_cases (h : Host ς ε) (birth : Epoch) (s : Sweep) (w : World ς) :
    ((s.conclude h (.ok ()) w).1 = .ok () ∧
      (s.conclude h (.ok ()) w).2.1 = { s with published := s.toPublish } ∧
      publications birth (s.conclude h (.ok ()) w).2.2.log =
        s.toPublish :: publications birth w.log) ∨
    ((s.conclude h (.ok ()) w).1 ≠ .ok () ∧ (s.conclude h (.ok ()) w).2 = (s, w)) := by
  have ended (s : Sweep) : publications birth (s.storeDone h w).2.log =
      .settled s.epoch :: publications birth w.log := by
    rw [log_storeDone]
    split <;> rfl
  obtain ⟨published, walk, epoch⟩ := s
  cases walk with
  | none => exact .inl ⟨rfl, rfl, ended _⟩
  | some k =>
    obtain ⟨cursor, ahead, trail⟩ := k
    cases ahead with
    | nil => exact .inl ⟨rfl, rfl, ended _⟩
    | cons f rest =>
      by_cases missing : trail.trailing.isNone = true
      · exact .inr (by simp [conclude, publish, missing])
      · left
        simp [conclude, publish, missing, store, toPublish, publications, boundaryIn]

section start

variable {h : Host ς ε} {context : Option Nat} {s : Sweep} {w : World ς}

theorem conclude_of_ok (birth : Epoch) (ok : (s.conclude h (.ok ()) w).1 = .ok ()) :
    (s.conclude h (.ok ()) w).2.1 = { s with published := s.toPublish } ∧
      publications birth (s.conclude h (.ok ()) w).2.2.log =
        s.toPublish :: publications birth w.log := by
  rcases conclude_cases h birth s w with ⟨-, concluded⟩ | ⟨failed, -⟩
  · exact concluded
  · exact absurd ok failed

theorem conclude_of_ne_ok (failed : (s.conclude h (.ok ()) w).1 ≠ .ok ()) :
    (s.conclude h (.ok ()) w).2 = (s, w) := by
  rcases conclude_cases h 0 s w with ⟨ok, -⟩ | ⟨-, same⟩
  · exact absurd ok failed
  · exact same

theorem start_of_not_walkable (walkable : w.thread.hasWalkableStack = false) :
    s.start h context w = conclude h (.ok ())
      { s with walk := none, epoch := (w.readEpoch h.kind).1 } (announced h w) := by
  unfold start
  simp only [World.thread_record, World.thread_readEpoch, walkable, Bool.false_eq_true, if_false]
  rfl

theorem start_of_walkable_eq (walkable : w.thread.hasWalkableStack = true) :
    s.start h context w =
      match s.firstSteps h context w with
      | (.ok (), k, w') =>
        conclude h (.ok ()) { s with walk := some k, epoch := (w.readEpoch h.kind).1 }
          (w'.record (.installed (h.label w') (w.readEpoch h.kind).1))
      | (.failed err, _, w') =>
        (.failed err, { s with walk := none },
          w'.record (.startFailed (h.label w') (h.describe err)))
      | (.unwound x, _, w') => (.unwound x, { s with walk := none }, w') := by
  unfold start
  simp only [World.thread_record, World.thread_readEpoch, walkable, if_true]
  rfl

/-- A start whose first steps succeed publishes. -/
theorem start_of_begun (walkable : w.thread.hasWalkableStack = true) {k : Walk} {w' : World ς}
    (begun : s.firstSteps h context w = (.ok (), k, w')) :
    s.start h context w =
      conclude h (.ok ()) { s with walk := some k, epoch := (w.readEpoch h.kind).1 }
        (w'.record (.installed (h.label w') (w.readEpoch h.kind).1)) := by
  rw [start_of_walkable_eq walkable, begun]

/-- A start whose first steps do not succeed ends as they did and drops the walk. -/
theorem start_of_refused (walkable : w.thread.hasWalkableStack = true)
    (refused : (s.firstSteps h context w).1 ≠ .ok ()) :
    (s.start h context w).1 = (s.firstSteps h context w).1 ∧
      (s.start h context w).2.1 = { s with walk := none } ∧
      Visited (s.firstSteps h context w).2.2.log [] (s.start h context w).2.2.log := by
  rw [start_of_walkable_eq walkable]
  generalize s.firstSteps h context w = r at refused ⊢
  obtain ⟨o, k, w'⟩ := r
  cases o with
  | ok _ => exact absurd rfl refused
  | failed e => exact ⟨rfl, rfl, .aside .refl rfl⟩
  | unwound x => exact ⟨rfl, rfl, .refl⟩

/-- How a start can go. -/
inductive Departs (h : Host ς ε) (context : Option Nat) (s : Sweep) (w : World ς) : Prop
  /-- There is no stack to walk. -/
  | idle (walkable : w.thread.hasWalkableStack = false)
      (start : s.start h context w = conclude h (.ok ())
        { s with walk := none, epoch := (w.readEpoch h.kind).1 } (announced h w))
  /-- The first steps have been taken. -/
  | begun (k : Walk) (w' : World ς) (walkable : w.thread.hasWalkableStack = true)
      (steps : s.firstSteps h context w = (.ok (), k, w'))
      (start : s.start h context w =
        conclude h (.ok ()) { s with walk := some k, epoch := (w.readEpoch h.kind).1 }
          (w'.record (.installed (h.label w') (w.readEpoch h.kind).1)))
  /-- One of the first steps has failed or unwound. -/
  | refused (walkable : w.thread.hasWalkableStack = true)
      (steps : (s.firstSteps h context w).1 ≠ .ok ())
      (ended : (s.start h context w).1 = (s.firstSteps h context w).1)
      (dropped : (s.start h context w).2.1 = { s with walk := none })
      (asides : Visited (s.firstSteps h context w).2.2.log [] (s.start h context w).2.2.log)

theorem departs (h : Host ς ε) (context : Option Nat) (s : Sweep) (w : World ς) :
    Departs h context s w := by
  cases walkable : w.thread.hasWalkableStack with
  | false => exact .idle walkable (start_of_not_walkable walkable)
  | true =>
    by_cases begun : (s.firstSteps h context w).1 = .ok ()
    · have steps : s.firstSteps h context w = (.ok (), (s.firstSteps h context w).2) :=
        Prod.ext begun rfl
      exact .begun _ _ walkable steps (start_of_begun walkable steps)
    · obtain ⟨ended, dropped, asides⟩ := start_of_refused walkable begun
      exact .refused walkable begun ended dropped asides

/-- Without a stack to walk every start succeeds. -/
theorem start_ok_of_not_walkable (walkable : w.thread.hasWalkableStack = false) :
    (s.start h context w).1 = .ok () := by
  rw [start_of_not_walkable walkable]
  rfl

/-- A start that did not succeed found a stack. -/
theorem walkable_of_start_ne_ok (failed : (s.start h context w).1 ≠ .ok ()) :
    w.thread.hasWalkableStack = true := by
  cases walkable : w.thread.hasWalkableStack with
  | true => rfl
  | false => exact absurd (start_ok_of_not_walkable walkable) failed

/-- A start that succeeds has published the epoch that it read. -/
theorem word_of_start_ok (ok : (s.start h context w).1 = .ok ()) :
    (s.start h context w).2.1.epoch = (w.readEpoch h.kind).1 ∧
      (s.start h context w).2.1.published.word.isOf (w.readEpoch h.kind).1 = true := by
  have concluded {s₁ : Sweep} {w₁ : World ς} (ok : (s₁.conclude h (.ok ()) w₁).1 = .ok ()) :
      (s₁.conclude h (.ok ()) w₁).2.1.epoch = s₁.epoch ∧
        (s₁.conclude h (.ok ()) w₁).2.1.published.word.isOf s₁.epoch = true := by
    rw [(conclude_of_ok 0 ok).1]
    exact ⟨rfl, isOf_toPublish s₁⟩
  cases s.departs h context w with
  | idle _ start =>
    rw [start] at ok ⊢
    exact concluded ok
  | begun k w' _ _ start =>
    rw [start] at ok ⊢
    exact concluded ok
  | refused _ refused ended => exact absurd (ended ▸ ok) refused

end start

/-! ## What a start leaves in the log -/

section log

variable (h : Host ς ε) (context : Option Nat) (s : Sweep) (w : World ς)

/-- The log as it is when the first steps begin. -/
def openedLog : List Event :=
  .walk w.thread.tid .incremental w.thread.frames ::
    .started (h.label w) (w.readEpoch h.kind).1 ::
      .epochRead h.kind (w.readEpoch h.kind).1 :: w.log

theorem firstSteps_ends :
    h.Ends (openedLog h w) (s.firstSteps h context w).1 (s.firstSteps h context w).2.2.log :=
  Walk.steps_ends h ⟨context, s.published⟩ h.pacing.initialFrames (.ofFrames w.thread.frames)
    ((announced h w).walkStack .incremental).2

theorem firstSteps_passes :
    (Walk.ofFrames w.thread.frames).Passes (openedLog h w)
      ((s.firstSteps h context w).1.verdict = .unwound) (s.firstSteps h context w).2.1
      (s.firstSteps h context w).2.2.log :=
  (Walk.steps_spec h ⟨context, s.published⟩ h.pacing.initialFrames (.ofFrames w.thread.frames)
    ((announced h w).walkStack .incremental).2).1

/-- A start reads the epoch before anything else. -/
theorem announced_suffix : (announced h w).log <:+ (s.start h context w).2.2.log := by
  have opened : (announced h w).log <:+ openedLog h w := List.suffix_cons _ _
  have passed := (firstSteps_passes h context s w).suffix
  cases s.departs h context w with
  | idle _ start =>
    rw [start]
    exact (publishes_conclude h (o := .ok ()) (by simp) _ (announced h w)).suffix
  | begun k w' _ steps start =>
    rw [steps] at passed
    rw [start]
    exact opened.trans (passed.trans (.trans ⟨[_], rfl⟩
      (publishes_conclude h (o := .ok ()) (by simp) _ (w'.record _)).suffix))
  | refused _ _ _ _ asides => exact opened.trans (passed.trans asides.suffix)

/-- The frames that a start walks over. There are none if the thread has no stack to walk. -/
def snapshot? (w : World ς) : Option (List Frame) :=
  if w.thread.hasWalkableStack then some w.thread.frames else none

/-- A start makes one attempt, at the campaign that it reads, over the stack as it is then. -/
theorem attempts_start (birth : Epoch) :
    ∃ a, attempts birth (s.start h context w).2.2.log = a :: attempts birth w.log ∧
      a.epoch = (w.readEpoch h.kind).1 ∧ a.snapshot = snapshot? w := by
  -- What is published of an attempt changes neither its epoch nor its frames.
  have concluded {s₁ : Sweep} {w₁ : World ς} :
      (∃ a, attempts birth w₁.log = a :: attempts birth w.log ∧
        a.epoch = (w.readEpoch h.kind).1 ∧ a.snapshot = snapshot? w) →
      ∃ a, attempts birth (s₁.conclude h (.ok ()) w₁).2.2.log = a :: attempts birth w.log ∧
        a.epoch = (w.readEpoch h.kind).1 ∧ a.snapshot = snapshot? w := by
    rintro ⟨a, made, epoch, snapshot⟩
    have published := publishes_conclude h (o := .ok ()) (by simp) s₁ w₁
    rcases published.cases_told birth with ⟨-, same⟩ | ⟨b, d, -, -, told⟩
    · rw [same]
      exact ⟨a, made, epoch, snapshot⟩
    · rw [told, made]
      exact ⟨_, rfl, epoch, snapshot⟩
  have passes := firstSteps_passes h context s w
  cases s.departs h context w with
  | idle walkable start =>
    rw [start]
    exact concluded ⟨_, rfl, rfl, by simp [snapshot?, walkable]⟩
  | begun k w' walkable steps start =>
    rw [steps] at passes
    obtain ⟨vs, seen, -⟩ := passes
    rw [start]
    refine concluded ?_
    rw [World.log_record, attempts, attempts_started seen]
    exact ⟨_, rfl, rfl, by simp [snapshot?, walkable]⟩
  | refused walkable _ _ _ asides =>
    obtain ⟨vs, seen, -⟩ := passes
    rw [asides.attempts_same, attempts_started seen]
    exact ⟨_, rfl, rfl, by simp [snapshot?, walkable]⟩

end log

/-- A start that does not succeed publishes nothing. -/
theorem published_of_start_ne_ok {h : Host ς ε} (birth : Epoch) {context : Option Nat} {s : Sweep}
    {w : World ς} (failed : (s.start h context w).1 ≠ .ok ()) :
    (s.start h context w).2.1.published = s.published ∧
      publications birth (s.start h context w).2.2.log = publications birth w.log := by
  have passes := firstSteps_passes h context s w
  cases s.departs h context w with
  | idle walkable => exact absurd (start_ok_of_not_walkable walkable) failed
  | begun k w' _ steps start =>
    -- The walk has frames left and no boundary to publish.
    rw [steps] at passes
    obtain ⟨vs, seen, -⟩ := passes
    rw [start] at failed ⊢
    rw [conclude_of_ne_ok failed]
    exact ⟨rfl, (seen.publications_eq birth).1⟩
  | refused _ _ _ dropped asides =>
    obtain ⟨vs, seen, -⟩ := passes
    rw [dropped, (asides.publications_eq birth).1, (seen.publications_eq birth).1]
    exact ⟨rfl, rfl⟩

end Sweep

/-! ## Walks -/

section walks

variable {s s' : Sweep} {log log' : List Event}

theorem Visited.walked_eq {vs : List (Visit × Verdict)} (seen : Visited log vs log') :
    walked log' = walked log := by
  induction seen with
  | refl => rfl
  | @aside _ _ e _ ha ih => cases e <;> simp_all [Event.isAside, walked]
  | visit _ _ _ _ _ ih => exact ih

theorem Sweep.Publishes.walked_eq (published : s.Publishes log s' log') :
    walked log' = walked log := by
  cases published with
  | boundary => rfl
  | ending => split <;> rfl
  | stuck => rfl

/-- Moving a walk on begins no other. -/
theorem Sweep.Moves.walked_eq (moves : s.Moves log s' log') : walked log' = walked log := by
  cases moves with
  | rest => rfl
  | settle _ published => exact published.walked_eq
  | unwound _ passes =>
    obtain ⟨vs, seen, -⟩ := passes
    exact seen.walked_eq
  | passed _ passes published asides =>
    obtain ⟨vs, seen, -⟩ := passes
    rw [asides.walked_eq, published.walked_eq, seen.walked_eq]

/-- A start walks the stack once, if there is one to walk. -/
theorem Sweep.walked_start (h : Host ς ε) (context : Option Nat) (s : Sweep) (w : World ς) :
    walked (s.start h context w).2.2.log = (snapshot? w).toList ++ walked w.log := by
  have passes := firstSteps_passes h context s w
  cases s.departs h context w with
  | idle walkable start =>
    rw [start, (publishes_conclude h (by simp) _ _).walked_eq]
    simp [snapshot?, walkable]
    rfl
  | begun k w' walkable steps start =>
    rw [steps] at passes
    obtain ⟨vs, seen, -⟩ := passes
    rw [start, (publishes_conclude h (by simp) _ _).walked_eq]
    refine seen.walked_eq.trans ?_
    simp [openedLog, walked, snapshot?, walkable]
  | refused walkable _ _ _ asides =>
    obtain ⟨vs, seen, -⟩ := passes
    rw [asides.walked_eq, seen.walked_eq]
    simp [openedLog, walked, snapshot?, walkable]

end walks

/-! ## Attempts that are over -/

section attempts

variable {birth : Epoch} {s s' : Sweep} {log log' : List Event}

/-- Only the latest attempt changes while a walk is moved on. -/
theorem Sweep.Moves.tail_attempts_eq (birth : Epoch) (moves : s.Moves log s' log') :
    (attempts birth log').tail = (attempts birth log).tail := by
  have visited {log log' : List Event} {vs : List (Visit × Verdict)} (seen : Visited log vs log') :
      (attempts birth log').tail = (attempts birth log).tail := by
    rw [seen.attempts_eq, List.tail_modifyHead]
  have publishes {s s' : Sweep} {log log' : List Event} (published : s.Publishes log s' log') :
      (attempts birth log').tail = (attempts birth log).tail := by
    rcases published.cases_told birth with ⟨-, same⟩ | ⟨b, d, -, -, told⟩
    · rw [same]
    · rw [told, List.tail_modifyHead]
  cases moves with
  | rest => rfl
  | settle _ published => exact publishes published
  | unwound _ passes =>
    obtain ⟨vs, seen, -⟩ := passes
    exact visited seen
  | passed _ passes published asides =>
    obtain ⟨vs, seen, -⟩ := passes
    exact (visited asides).trans ((publishes published).trans (visited seen))

end attempts

/-! ## Turns that start and turns that do not -/

namespace Sweep

variable {s s' : Sweep} {log log' : List Event}

/-- At most the epoch is looked at, and then the walk in place is moved on. -/
def Glides (s : Sweep) (log : List Event) (s' : Sweep) (log' : List Event) : Prop :=
  ∃ log₁, (log₁ = log ∨ ∃ i e, Visited (.epochRead i e :: log) [] log₁) ∧ s.Moves log₁ s' log'

theorem Glides.walked_eq (glides : s.Glides log s' log') : walked log' = walked log := by
  obtain ⟨log₁, rfl | ⟨i, e, asides⟩, moves⟩ := glides
  · exact moves.walked_eq
  · rw [moves.walked_eq, asides.walked_eq]
    rfl

/-- Moving on keeps the epoch of the sweep, and a word that is published on the way carries it. -/
theorem Moves.epoch_eq (moves : s.Moves log s' log') : s'.epoch = s.epoch ∧
    (s'.published.word = s.published.word ∨ ∃ d, s'.published.word = .pack s.epoch d) := by
  have published {s s' : Sweep} {log log' : List Event} (h : s.Publishes log s' log') :
      s'.epoch = s.epoch ∧
        (s'.published.word = s.published.word ∨ ∃ d, s'.published.word = .pack s.epoch d) := by
    rcases h.cases_told 0 with ⟨rfl, -⟩ | ⟨b, d, rfl, -, -⟩
    · exact ⟨rfl, .inl rfl⟩
    · exact ⟨rfl, .inr ⟨d, rfl⟩⟩
  cases moves with
  | rest => exact ⟨rfl, .inl rfl⟩
  | settle _ h => exact published h
  | unwound => exact ⟨rfl, .inl rfl⟩
  | passed _ _ h =>
    have kept := published h
    exact kept

theorem Glides.epoch_eq (glides : s.Glides log s' log') : s'.epoch = s.epoch ∧
    (s'.published.word = s.published.word ∨ ∃ d, s'.published.word = .pack s.epoch d) := by
  obtain ⟨log₁, -, moves⟩ := glides
  exact moves.epoch_eq

variable (h : Host ς ε) {stage : Stage} {w : World ς}

theorem ensureStarted_of_stale (context : Option Nat)
    (stale : s.isStale (w.readEpoch h.kind).1 = true) :
    s.ensureStarted h context w = s.start h context (w.readEpoch h.kind).2 := by
  unfold ensureStarted
  simp only [stale, if_true]

theorem increment_of_stale (stale : s.isStale (w.readEpoch h.kind).1 = true) :
    s.increment h w = s.start h none (w.readEpoch h.kind).2 := by
  unfold increment
  simp only [stale, if_true]

/-- The first turn of a drain that has to start the campaign goes on with its first batch. -/
theorem drainFirst_of_stale (context : Option Nat)
    (stale : s.isStale (w.readEpoch h.kind).1 = true) :
    let r := s.start h context (w.readEpoch h.kind).2
    (r.1 ≠ .ok () → Stage.drainFirst h context s w = Stage.ended r) ∧
      ∃ log, Visited r.2.2.log [] log ∧ r.2.1.Moves log (Stage.drainFirst h context s w).2.1
        (Stage.drainFirst h context s w).2.2.log := by
  unfold Stage.drainFirst
  rw [ensureStarted_of_stale h context stale]
  generalize s.start h context (w.readEpoch h.kind).2 = r
  obtain ⟨o, s₁, w₁⟩ := r
  cases o with
  | failed e => exact ⟨fun _ => rfl, _, .refl, .rest⟩
  | unwound x => exact ⟨fun _ => rfl, _, .refl, .rest⟩
  | ok _ =>
    refine ⟨fun failed => absurd rfl failed, ?_⟩
    simp only
    split
    · rename_i hk
      exact ⟨_, .refl, .settle hk (publishes_conclude h (by simp) s₁ w₁)⟩
    · exact ⟨_, .aside .refl rfl,
        moves_drainBatch h context s₁ (w₁.record (.draining (h.label w₁)))⟩

/-- On a stale sweep the turn of a stage that may start a campaign does so. If the start succeeds, a
drain moves the walk on at once, and nothing else is done to the sweep. -/
theorem turn_of_stale {context : Option Nat} (starts : stage.context? = some context)
    (stale : s.isStale (w.readEpoch h.kind).1 = true) :
    let r := s.start h context (w.readEpoch h.kind).2
    (r.1 ≠ .ok () → stage.turn h s w = Stage.ended r) ∧
      ((∀ c, stage ≠ .drain c) → (stage.turn h s w).2 = r.2) ∧
      ∃ log, Visited r.2.2.log [] log ∧
        r.2.1.Moves log (stage.turn h s w).2.1 (stage.turn h s w).2.2.log := by
  cases stage with
  | increment =>
    cases starts
    have turn : Stage.increment.turn h s w = Stage.ended (s.increment h w) := rfl
    rw [turn, increment_of_stale h stale]
    exact ⟨fun _ => rfl, fun _ => rfl, _, .refl, .rest⟩
  | start =>
    cases starts
    have turn : Stage.start.turn h s w = Stage.ended (s.ensureStarted h none w) := rfl
    rw [turn, ensureStarted_of_stale h none stale]
    exact ⟨fun _ => rfl, fun _ => rfl, _, .refl, .rest⟩
  | approach f =>
    cases starts
    simp only [Stage.turn, increment_of_stale h stale]
    generalize s.start h none (w.readEpoch h.kind).2 = r
    obtain ⟨o, s₁, w₁⟩ := r
    cases o with
    | ok _ => exact ⟨fun failed => absurd rfl failed, fun _ => rfl, _, .refl, .rest⟩
    | failed e => exact ⟨fun _ => rfl, fun _ => rfl, _, .refl, .rest⟩
    | unwound x => exact ⟨fun _ => rfl, fun _ => rfl, _, .refl, .rest⟩
  | drain c =>
    cases starts
    obtain ⟨failed, moved⟩ := drainFirst_of_stale (s := s) h context stale
    exact ⟨failed, fun other => absurd rfl (other context), moved⟩
  | resume c => cases starts
  | secure f => cases starts
  | judge f => cases starts
  | locate => cases starts

theorem Parts.glides {h : Host ς ε} (parts : Parts h s w s' log')
    (current : s.isStale (w.readEpoch h.kind).1 = false) : s.Glides w.log s' log' := by
  cases parts with
  | looked i e => exact ⟨_, .inr ⟨i, e, .refl⟩, .rest⟩
  | resumed moves => exact ⟨_, .inl rfl, moves⟩
  | ensured context asides moves =>
    unfold ensureStarted at asides moves
    simp only [current, Bool.false_eq_true, if_false] at asides moves
    exact ⟨_, .inr ⟨h.kind, _, asides⟩, moves⟩

/-- A turn that finds the campaign started does not start it. -/
theorem glides_of_current (current : s.isStale (w.readEpoch h.kind).1 = false) :
    s.Glides w.log (stage.turn h s w).2.1 (stage.turn h s w).2.2.log :=
  (parts_turn h stage s w).glides current

/-- Neither does a turn that does not ask. -/
theorem glides_of_context_none (none : stage.context? = none) :
    s.Glides w.log (stage.turn h s w).2.1 (stage.turn h s w).2.2.log := by
  cases stage with
  | resume c => exact ⟨_, .inl rfl, moves_drainBatch h c s w⟩
  | secure f => exact ⟨_, .inr ⟨h.kind, _, .refl⟩, .rest⟩
  | judge f => exact ⟨_, .inr ⟨h.kind, _, .refl⟩, .rest⟩
  | locate => exact ⟨_, .inr ⟨h.kind, _, .refl⟩, .rest⟩
  | _ => cases none

theorem conclude_suffix (o : Outcome ε Unit) (s : Sweep) (w : World ς) :
    w.log <:+ (s.conclude h o w).2.2.log := by
  cases o with
  | ok _ => exact (publishes_conclude h (o := .ok ()) (by simp) s w).suffix
  | failed e => exact (publishes_conclude h (o := .failed e) (by simp) s w).suffix
  | unwound x => exact List.suffix_refl _

theorem ensureStarted_suffix (context : Option Nat) (s : Sweep) (w : World ς) :
    (w.readEpoch h.kind).2.log <:+ (s.ensureStarted h context w).2.2.log := by
  by_cases stale : s.isStale (w.readEpoch h.kind).1 = true
  · rw [ensureStarted_of_stale h context stale]
    exact .trans ⟨[_, _], rfl⟩ (announced_suffix h context s _)
  · unfold ensureStarted
    simp only [stale]
    exact List.suffix_refl _

theorem increment_suffix (s : Sweep) (w : World ς) :
    (w.readEpoch h.kind).2.log <:+ (s.increment h w).2.2.log := by
  by_cases stale : s.isStale (w.readEpoch h.kind).1 = true
  · rw [increment_of_stale h stale]
    exact .trans ⟨[_, _], rfl⟩ (announced_suffix h none s _)
  · unfold increment
    simp only [stale, Bool.false_eq_true, if_false]
    split
    · exact List.suffix_refl _
    · rename_i k _
      exact (k.step_spec h _ _).1.suffix.trans (conclude_suffix h _ _ _)

/-- Every turn but that of a drain that resumes reads the epoch before anything else. -/
theorem turn_suffix (asks : ∀ c, stage ≠ .resume c) (s : Sweep) (w : World ς) :
    (w.readEpoch h.kind).2.log <:+ (stage.turn h s w).2.2.log := by
  cases stage with
  | increment => exact increment_suffix h s w
  | start => exact ensureStarted_suffix h none s w
  | drain context =>
    have started := ensureStarted_suffix h context s w
    simp only [Stage.turn, Stage.drainFirst]
    generalize s.ensureStarted h context w = r at started ⊢
    obtain ⟨o, s₁, w₁⟩ := r
    cases o with
    | failed e => exact started
    | unwound x => exact started
    | ok _ =>
      simp only
      split
      · exact started.trans (conclude_suffix h (.ok ()) s₁ w₁)
      · exact started.trans (.trans ⟨[_], rfl⟩
          (moves_drainBatch h context s₁ (w₁.record (.draining (h.label w₁)))).suffix)
  | resume c => exact absurd rfl (asks c)
  | secure f => exact List.suffix_refl _
  | approach f =>
    have moved := increment_suffix h s w
    simp only [Stage.turn]
    generalize s.increment h w = r at moved ⊢
    obtain ⟨o, s', w'⟩ := r
    cases o <;> exact moved
  | judge f => exact List.suffix_refl _
  | locate => exact List.suffix_refl _

/-- A look leaves the sweep alone. -/
theorem turn_of_isLook (look : stage.IsLook) :
    (stage.turn h s w).2 = (s, (w.readEpoch h.kind).2) := by
  cases stage with
  | secure f => rfl
  | judge f => rfl
  | locate => rfl
  | _ => cases look

end Sweep

namespace Site

variable {site site' : Site ς}

/-- The start that a turn makes if the sweep is stale. -/
def launch (h : Host ς ε) (context : Option Nat) (site : Site ς) :
    Outcome ε Unit × Sweep × World ς :=
  site.sweep.start h context (site.world.readEpoch h.kind).2

/-- The first steps of that start. -/
def launchSteps (h : Host ς ε) (context : Option Nat) (site : Site ς) :
    Outcome ε Unit × Walk × World ς :=
  site.sweep.firstSteps h context (site.world.readEpoch h.kind).2

/-- The epochs that were read between the two sites, latest first. -/
def readingsSince (site site' : Site ς) : List Epoch :=
  let later := readings site'.world.log
  later.take (later.length - (readings site.world.log).length)

theorem readingsSince_eq {es : List Event} (split : site'.world.log = es ++ site.world.log) :
    readingsSince site site' = readings es := by
  simp [readingsSince, split, readings_append]

/-- A start that fails is all that its turn does. -/
theorem turn_of_launch_ne_ok {h : Host ς ε} {p : Nat} {b : Pending} {context : Option Nat}
    (starts : b.stage.context? = some context) (stale : site.sweep.isStale (site.current h) = true)
    (failed : (site.launch h context).1 ≠ .ok ()) :
    b.stage.turn h site.sweep site.world = Stage.ended (site.launch h context) ∧
      (site.turn h p b).sweep = (site.launch h context).2.1 ∧
      (site.turn h p b).world = (site.launch h context).2.2 := by
  have ended := (Sweep.turn_of_stale h (w := site.world) starts stale).1 failed
  refine ⟨ended, ?_, ?_⟩
  · rw [sweep_turn, ended]
    rfl
  · rw [world_turn, ended]
    rfl

end Site

end StackSweep
