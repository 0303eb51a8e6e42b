import Mathlib.Logic.Relation
import StackSweep.Strand

/-!
# Turns in moves

A party that nobody comes between makes the same of its turn as if the turn were a single step, and
the same of its errand. So whatever is known of turns and errands is known of sections and strands
as well, except for what others do between two moves.
-/

namespace StackSweep

variable {ς ε : Type}

/-! ## Passes -/

namespace Walk

namespace Pass

variable {h : Host ς ε} {sh : Shared} {p : Pass ε} {w w' : World ς} {f : Frame} {rest : List Frame}

theorem proceed_of_ok (ahead : p.walk.ahead = f :: rest) (fine : p.fault? f = none)
    (eq : h.visit ⟨f, p.walk.cursor, sh.context, sh.published⟩ w = (.ok (), w')) :
    p.proceed h sh w = (p.passed f (h.hasBarrier f w), w') := by
  simp only [proceed, ahead, fine, eq]

theorem proceed_of_failed {e : ε} (ahead : p.walk.ahead = f :: rest) (fine : p.fault? f = none)
    (eq : h.visit ⟨f, p.walk.cursor, sh.context, sh.published⟩ w = (.failed e, w')) :
    p.proceed h sh w = ({ p with ended := some (.failed e) }, w') := by
  simp only [proceed, ahead, fine, eq]

theorem proceed_of_unwound {x : Fault} (ahead : p.walk.ahead = f :: rest) (fine : p.fault? f = none)
    (eq : h.visit ⟨f, p.walk.cursor, sh.context, sh.published⟩ w = (.unwound x, w')) :
    p.proceed h sh w = ({ p with ended := some (.unwound x) }, w') := by
  simp only [proceed, ahead, fine, eq]

/-- The pass comes to an end like this if nobody comes between. -/
inductive Ends (h : Host ς ε) (sh : Shared) : Pass ε × World ς → Pass ε × World ς → Prop
  | refl (p : Pass ε) (w : World ς) : p.ended.isSome → Ends h sh (p, w) (p, w)
  | proceed {p : Pass ε} {w : World ς} {r r' : Pass ε × World ς} :
      p.ended = none → p.proceed h sh w = r → Ends h sh r r' → Ends h sh (p, w) r'

end Pass

variable (h : Host ς ε) (sh : Shared) (b : Bracket)

theorem ends_stepFrames (trail : Trail) (fs : List Frame) :
    ∀ (last : Position) (cursor : Nat) (w : World ς),
      let q := stepFrames h sh last cursor fs w
      ∃ o, o.map (fun _ => ()) = q.outcome ∧
        Pass.Ends h sh (⟨b, .step last, ⟨cursor, fs, trail⟩, none⟩, w)
          (⟨b, .step q.last, ⟨q.cursor, q.ahead, trail⟩, some o⟩, q.world) := by
  induction fs with
  | nil => exact fun last cursor w => ⟨.ok .exhausted, rfl, .proceed rfl rfl (.refl _ _ rfl)⟩
  | cons f rest ih =>
    intro last cursor w
    unfold stepFrames
    split <;> rename_i eq
    · have handed := Pass.proceed_of_ok (p := ⟨b, .step last, ⟨cursor, f :: rest, trail⟩, none⟩)
        rfl rfl eq
      split <;> rename_i barrier <;> simp only [Pass.passed, advance, barrier] at handed
      · exact ⟨.ok .interval, rfl, .proceed rfl handed (.refl _ _ rfl)⟩
      · obtain ⟨o, outcome, ends⟩ := ih f.position (cursor + 1) ‹World ς›
        exact ⟨o, outcome, .proceed rfl handed ends⟩
    · exact ⟨.failed _, rfl, .proceed rfl (Pass.proceed_of_failed rfl rfl eq) (.refl _ _ rfl)⟩
    · exact ⟨.unwound _, rfl, .proceed rfl (Pass.proceed_of_unwound rfl rfl eq) (.refl _ _ rfl)⟩

theorem ends_batchFrames (interval : Nat) (fs : List Frame) :
    ∀ (seen cursor : Nat) (trail : Trail) (w : World ς),
      let q := batchFrames h sh interval seen cursor trail fs w
      ∃ seen', Pass.Ends h sh (⟨b, .batch interval seen, ⟨cursor, fs, trail⟩, none⟩, w)
          (⟨b, .batch interval seen', q.2.1, some q.1⟩, q.2.2) := by
  induction fs with
  | nil => exact fun seen cursor trail w => ⟨seen, .proceed rfl rfl (.refl _ _ rfl)⟩
  | cons f rest ih =>
    intro seen cursor trail w
    let p : Pass ε := ⟨b, .batch interval seen, ⟨cursor, f :: rest, trail⟩, none⟩
    unfold batchFrames
    split <;> rename_i inside
    · refine ⟨seen, .proceed rfl ?_ (.refl _ _ rfl)⟩
      simp only [Pass.proceed, Pass.fault?, inside, if_true]
    · have fine : p.fault? f = none := if_neg inside
      split <;> rename_i eq
      · have handed := Pass.proceed_of_ok (p := p) rfl fine eq
        split <;> rename_i barrier <;> simp only [Pass.passed, advance, barrier] at handed
        · simp only [if_true, List.tail_cons, p] at handed
          split <;> rename_i full <;> simp only [full, if_true, if_false] at handed
          · exact ⟨_, .proceed rfl handed (.refl _ _ rfl)⟩
          · rw [← mk_trail_record] at handed
            obtain ⟨seen', ends⟩ := ih (seen + 1) (cursor + 1) _ ‹World ς›
            exact ⟨seen', .proceed rfl handed ends⟩
        · obtain ⟨seen', ends⟩ := ih seen (cursor + 1) trail ‹World ς›
          exact ⟨seen', .proceed rfl handed ends⟩
      · exact ⟨seen, .proceed rfl (Pass.proceed_of_failed rfl fine eq) (.refl _ _ rfl)⟩
      · exact ⟨seen, .proceed rfl (Pass.proceed_of_unwound rfl fine eq) (.refl _ _ rfl)⟩

end Walk

/-! ## Sections -/

/-- The turn comes to an end like this if nobody comes between. -/
inductive Standing.Ends (h : Host ς ε) : Standing ε × World ς → Turn ε × Sweep × World ς → Prop
  | released (turn : Turn ε) (s : Sweep) (w : World ς) : Ends h (.released turn s, w) (turn, s, w)
  | move {x : Section ε} {w : World ς} {r : Turn ε × Sweep × World ς} :
      Ends h (x.move h w) r → Ends h (.going x, w) r

variable {h : Host ς ε} {r : Turn ε × Sweep × World ς}

namespace Section

variable {x : Section ε}

/-- A section goes on with what comes after the pass that it is in. -/
theorem ends_of_pass {a b : Walk.Pass ε × World ς} (pass : Walk.Pass.Ends h x.shared a b)
    {o : Outcome ε Walk.BatchEnd} (ended : b.1.ended = some o)
    (after : Standing.Ends h (x.afterPass h o b.1.left (b.1.bracket.leave b.2)) r) :
    Standing.Ends h (.going { x with place := .within a.1 }, a.2) r := by
  induction pass with
  | refl p w _ =>
    have done : p.ended = some o := ended
    refine .move ?_
    simp only [move, done]
    exact after
  | @proceed p w r₁ r₂ going eq _ ih =>
    subst eq
    refine .move ?_
    simp only [move, going]
    exact ih ended after

/-- A section takes a step, and goes on with what comes after it. How the step ended without an
error makes no difference. -/
theorem ends_of_step (sh : Walk.Shared) {k : Walk} {w : World ς} (shared : x.shared = sh)
    (stepping : x.gait h = .step .none) (place : x.place = .before k)
    (after : ∀ o, o.map (fun _ => ()) = (k.step h sh w).1 →
      Standing.Ends h (x.afterPass h o (k.step h sh w).2.1 (k.step h sh w).2.2) r) :
    Standing.Ends h (.going x, w) r := by
  subst shared
  obtain ⟨o, outcome, pass⟩ := Walk.ends_stepFrames h x.shared (Bracket.enter w).1 k.trail k.ahead
    .none k.cursor (Bracket.enter w).2
  refine .move ?_
  simp only [move, place, stepping]
  exact ends_of_pass pass rfl (after o outcome)

/-- A section takes a batch, and goes on with what comes after it. -/
theorem ends_of_batch {k : Walk} {w : World ς}
    (draining : x.gait h = .batch h.pacing.framesPerYield 0) (place : x.place = .before k)
    (after : Standing.Ends h
      (x.afterPass h (k.batch h x.shared h.pacing.framesPerYield w).1
        (k.batch h x.shared h.pacing.framesPerYield w).2.1
        (k.batch h x.shared h.pacing.framesPerYield w).2.2) r) :
    Standing.Ends h (.going x, w) r := by
  obtain ⟨seen, pass⟩ := Walk.ends_batchFrames h x.shared (Bracket.enter w).1
    h.pacing.framesPerYield k.ahead 0 k.cursor k.trail (Bracket.enter w).2
  refine .move ?_
  simp only [move, place, draining]
  exact ends_of_pass pass rfl after

end Section

namespace Stage

/-! ## Turns -/

/-- What a start makes of its first steps. -/
def afterSteps (h : Host ς ε) (e : Epoch) (s : Sweep) :
    Outcome ε Unit × Walk × World ς → Outcome ε Unit × Sweep × World ς
  | (.ok (), k, w) =>
    Sweep.conclude h (.ok ()) { s with walk := some k, epoch := e }
      (w.record (.installed (h.label w) e))
  | (.failed err, _, w) =>
    (.failed err, { s with walk := none }, w.record (.startFailed (h.label w) (h.describe err)))
  | (.unwound x, _, w) => (.unwound x, { s with walk := none }, w)

theorem ends_takeSteps {stage : Stage} {e : Epoch} {s : Sweep} (n : Nat) :
    ∀ (k : Walk) (w : World ς),
      Standing.Ends h
        (stage.wrapUp h (afterSteps h e s (k.steps h ⟨stage.context, s.published⟩ n w))) r →
      Standing.Ends h (stage.takeSteps h e k s w n) r := by
  induction n with
  | zero => exact fun k w after => after
  | succ n ih =>
    intro k w after
    refine Section.ends_of_step ⟨stage.context, s.published⟩ rfl rfl rfl ?_
    intro o outcome
    unfold Walk.steps at after
    split at after <;> rename_i eq <;> rw [eq] at outcome ⊢ <;> cases o <;> cases outcome
    · exact ih _ _ after
    · exact after
    · exact after

theorem ends_beginStart {stage : Stage} {s : Sweep} {w : World ς}
    (after : Standing.Ends h (stage.wrapUp h (s.start h stage.context w)) r) :
    Standing.Ends h (stage.beginStart h s w) r := by
  unfold Sweep.start at after
  unfold beginStart
  simp only at after ⊢
  split <;> rename_i walkable
  · rw [if_pos walkable] at after
    exact ends_takeSteps _ _ _ after
  · rw [if_neg walkable] at after
    exact after

theorem ends_beginEnsureStarted {stage : Stage} {s : Sweep} {w : World ς}
    (after : Standing.Ends h (stage.wrapUp h (s.ensureStarted h stage.context w)) r) :
    Standing.Ends h (stage.beginEnsureStarted h s w) r := by
  unfold Sweep.ensureStarted at after
  unfold beginEnsureStarted
  simp only at after ⊢
  split <;> rename_i stale
  · rw [if_pos stale] at after
    exact ends_beginStart after
  · rw [if_neg stale] at after
    exact after

theorem ends_beginIncrement {stage : Stage} (plain : stage.context = none) {s : Sweep} {w : World ς}
    (after : Standing.Ends h (stage.wrapUp h (s.increment h w)) r) :
    Standing.Ends h (stage.beginIncrement h s w) r := by
  unfold Sweep.increment at after
  unfold beginIncrement
  simp only at after ⊢
  split <;> rename_i stale
  · rw [if_pos stale, ← plain] at after
    exact ends_beginStart after
  · rw [if_neg stale] at after
    split <;> rename_i walk <;> simp only [walk] at after
    · exact after
    · refine Section.ends_of_step ⟨none, s.published⟩ (by rw [Section.shared, plain]) rfl rfl ?_
      intro o outcome
      rw [← outcome] at after
      exact after

/-- What comes after the batch of a drain is the rest of its turn. -/
theorem drainBatch_eq {context : Option Nat} {s : Sweep} {k : Walk} (walk : s.walk = some k)
    (w : World ς) :
    drainBatch h context s w =
      let q := k.batch h ⟨context, s.published⟩ h.pacing.framesPerYield w
      afterBatch h context q.1 { s with walk := some q.2.1 } q.2.2 := by
  unfold drainBatch
  simp only [walk]
  split <;> rename_i eq <;> rw [eq] <;> rfl

theorem ends_draining {stage : Stage} {s : Sweep} {k : Walk} (walk : s.walk = some k)
    (w : World ς) :
    Standing.Ends h (.going ⟨stage, s, .draining, .before k⟩, w)
      (drainBatch h stage.context s w) := by
  rw [drainBatch_eq walk]
  exact Section.ends_of_batch rfl rfl (.released _ _ _)

/-- A turn that nobody comes between ends as if it were a single step. -/
theorem ends_begin (stage : Stage) (s : Sweep) (w : World ς) :
    Standing.Ends h (stage.begin h s w) (stage.turn h s w) := by
  cases stage with
  | increment => exact ends_beginIncrement rfl (.released _ _ _)
  | start => exact ends_beginEnsureStarted (.released _ _ _)
  | drain context =>
    refine ends_beginEnsureStarted ?_
    simp only [turn, drainFirst, Stage.context]
    rcases s.ensureStarted h context w with ⟨_ | _ | _, s', w'⟩
    · simp only [wrapUp]
      cases walk : s'.walk with
      | none => exact .released _ _ _
      | some k => exact ends_draining walk _
    · exact .released _ _ _
    · exact .released _ _ _
  | resume context =>
    simp only [begin, turn]
    cases walk : s.walk with
    | none =>
      simp only [drainBatch, walk]
      exact .released _ _ _
    | some k => exact ends_draining walk w
  | approach f =>
    refine ends_beginIncrement rfl ?_
    simp only [turn]
    rcases s.increment h w with ⟨_ | _ | _, s', w'⟩ <;> exact .released _ _ _
  | secure f => exact .released _ _ _
  | judge f => exact .released _ _ _
  | locate => exact .released _ _ _

end Stage

/-! ## Errands -/

namespace Strand

variable {hosts : Nat → Host ς ε}

/-- One move of a strand that nobody else gets in the way of. -/
def Moves (hosts : Nat → Host ς ε) (a b : Next ε × World ς) : Prop :=
  ∃ x, a.1 = .going x ∧ x.move hosts a.2 = b

/-- Where an errand has come is where its strand has come, unless it was not given enough turns. -/
def Next.ofProgress : Errand.Progress ε → Option (Next ε)
  | .finished o => some (.ended o)
  | .blocked i _ => some (.blocked i)
  | .unfinished => none

/-- The strand moves on as its section does. -/
theorem moves_of_ends {i : Nat} {calls : List (Nat × Call)} {answers : List Answer}
    {a : Standing ε × World ς} {r : Turn ε × Sweep × World ς} (ends : Standing.Ends (hosts i) a r) :
    Relation.ReflTransGen (Moves hosts) (carryOn i calls answers a)
      (carryOn i calls answers (.released r.1 r.2.1, r.2.2)) := by
  induction ends with
  | released turn s w => exact .refl
  | move _ ih => exact .head ⟨_, rfl, rfl⟩ ih

/-- A strand that takes a lock has taken a turn when it gives the lock back. -/
theorem moves_takeTurn {i : Nat} (stage : Stage) (calls : List (Nat × Call))
    (answers : List Answer) {w : World ς} (free : w.isHeld i = false) {turn : Turn ε} {w' : World ς}
    (taken : Errand.takeTurn hosts i stage w = (turn, w')) :
    ∃ s w'', w''.unlock i s = w' ∧
      Relation.ReflTransGen (Moves hosts) (.going (ofErrand ⟨some (i, stage), calls, answers⟩), w)
        (carryOn i calls answers (.released turn s, w'')) := by
  have ends := stage.ends_begin (h := hosts i) (w.sweeps.getD i default) (w.lock i)
  obtain ⟨rfl, rfl⟩ := Prod.mk.inj taken
  refine ⟨_, _, rfl, .head ⟨_, rfl, ?_⟩ (moves_of_ends ends)⟩
  simp [move, ofErrand, free]

/-- An errand that nobody comes between ends as if each turn were a single step. -/
theorem moves_run (fuel : Nat) :
    ∀ (errand : Errand) (w : World ς) {p : Errand.Progress ε} {w' : World ς} {next : Next ε},
      errand.run hosts (fun _ w => w) fuel w = (p, w') → Next.ofProgress p = some next →
        Relation.ReflTransGen (Moves hosts) (.going (ofErrand errand), w) (next, w') := by
  induction fuel with
  | zero =>
    intro errand w p w' next run ended
    cases run
    cases ended
  | succ fuel ih =>
    rintro ⟨_ | ⟨i, stage⟩, calls, answers⟩ w p w' next run ended
    · cases calls with
      | nil =>
        cases run
        cases ended
        exact .single ⟨_, rfl, rfl⟩
      | cons call calls =>
        obtain ⟨i, c⟩ := call
        unfold Errand.run at run
        split at run <;> rename_i opened <;> refine .head ⟨_, rfl, ?_⟩ (ih _ _ run ended)
        · simp only [move, ofErrand, opened]
        · simp only [move, ofErrand, opened]
    · unfold Errand.run at run
      split at run <;> rename_i held
      · cases run
        cases ended
        refine .single ⟨_, rfl, ?_⟩
        simp [move, ofErrand, held]
      · have free : w.isHeld i = false := by simpa using held
        split at run <;> rename_i taken <;>
          obtain ⟨s, w'', rfl, moves⟩ := moves_takeTurn stage calls answers free taken
        · exact moves.trans (ih _ _ run ended)
        · cases run
          cases ended
          exact moves
        · cases run
          cases ended
          exact moves
        · exact moves.trans (ih _ _ run ended)
        · exact moves.trans (ih _ _ run ended)

end Strand

end StackSweep
