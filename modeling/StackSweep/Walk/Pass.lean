import StackSweep.Bracket

/-!
# Passing frames

A walk moves on in two ways, each inside one bracket. A step processes frames up to and including
the next barrier frame and then records the position of the last frame it processed, also when the
processor failed or unwound. A batch goes on until it has processed a given number of barrier
frames and records the position of each of them. Either way a frame counts as passed once its
processing has succeeded, and a frame whose processing did not succeed is the next one to be
tried.

`step` is `process_one_step`, `batch` is `drain_batch` with `BatchEnd` for its `DrainStatus`, and
`steps` is the loop over the initial frames in `start_iteration_impl`.
-/

namespace StackSweep.Walk

variable {ς ε : Type}

/-- What all visits of one pass have in common. -/
structure Shared where
  context : Option Nat
  published : Published

/-- Where the frames of a step have led. -/
structure Stepped (ε ς : Type) where
  outcome : Outcome ε Unit
  /-- The position of the last frame processed, missing if there was none. -/
  last : Position
  cursor : Nat
  ahead : List Frame
  world : World ς

/-- Processes frames up to and including the first that has a barrier. Whether a frame has one is
decided before it is processed. -/
def stepFrames (h : Host ς ε) (sh : Shared) (last : Position) (cursor : Nat) :
    List Frame → World ς → Stepped ε ς
  | [], w => ⟨.ok (), last, cursor, [], w⟩
  | f :: rest, w =>
    match h.visit ⟨f, cursor, sh.context, sh.published⟩ w with
    | (.ok (), w') =>
      if h.hasBarrier f w then ⟨.ok (), f.position, cursor + 1, rest, w'⟩
      else stepFrames h sh f.position (cursor + 1) rest w'
    | (.failed e, w') => ⟨.failed e, last, cursor, f :: rest, w'⟩
    | (.unwound x, w') => ⟨.unwound x, last, cursor, f :: rest, w'⟩

/-- One increment. -/
def step (h : Host ς ε) (sh : Shared) (k : Walk) (w : World ς) : Outcome ε Unit × Walk × World ς :=
  let (b, w) := Bracket.enter w
  let r := stepFrames h sh .none k.cursor k.ahead w
  let k : Walk := { k with cursor := r.cursor, ahead := r.ahead }
  (r.outcome, if r.last.isNone then k else k.record r.last, b.leave r.world)

/-- How a batch ended that did not fail. -/
inductive BatchEnd
  /-- The given number of barrier frames has been processed. -/
  | interval
  /-- No frame is left. -/
  | exhausted
deriving DecidableEq, Repr

def BatchEnd.name : BatchEnd → String
  | .interval => "Yield"
  | .exhausted => "Exhausted"

/-- Processes frames until `interval` of them have had a barrier, of which `seen` already have. -/
def batchFrames (h : Host ς ε) (sh : Shared) (interval seen cursor : Nat) (trail : Trail) :
    List Frame → World ς → Outcome ε BatchEnd × Walk × World ς
  | [], w => (.ok .exhausted, ⟨cursor, [], trail⟩, w)
  | f :: rest, w =>
    if f.position.isInner trail.leading then
      (.unwound (.insideProcessed f.position trail.leading), ⟨cursor, f :: rest, trail⟩, w)
    else
      match h.visit ⟨f, cursor, sh.context, sh.published⟩ w with
      | (.ok (), w') =>
        if h.hasBarrier f w then
          let k := (Walk.mk (cursor + 1) rest trail).record f.position
          if seen + 1 = interval then (.ok .interval, k, w')
          else batchFrames h sh interval (seen + 1) (cursor + 1) k.trail rest w'
        else batchFrames h sh interval seen (cursor + 1) trail rest w'
      | (.failed e, w') => (.failed e, ⟨cursor, f :: rest, trail⟩, w')
      | (.unwound x, w') => (.unwound x, ⟨cursor, f :: rest, trail⟩, w')

/-- A run of increments that share one bracket, up to `interval` barrier frames. -/
def batch (h : Host ς ε) (sh : Shared) (interval : Nat) (k : Walk) (w : World ς) :
    Outcome ε BatchEnd × Walk × World ς :=
  let (b, w) := Bracket.enter w
  let (o, k, w) := batchFrames h sh interval 0 k.cursor k.trail k.ahead w
  (o, k, b.leave w)

/-- Steps one after another, up to `n` of them, until one does not succeed. -/
def steps (h : Host ς ε) (sh : Shared) : Nat → Walk → World ς → Outcome ε Unit × Walk × World ς
  | 0, k, w => (.ok (), k, w)
  | n + 1, k, w =>
    match k.step h sh w with
    | (.ok (), k, w) => steps h sh n k w
    | (.failed e, k, w) => (.failed e, k, w)
    | (.unwound x, k, w) => (.unwound x, k, w)

@[simp] theorem steps_zero (h : Host ς ε) (sh : Shared) (k : Walk) (w : World ς) :
    steps h sh 0 k w = (.ok (), k, w) := rfl

/-- The cursor moves on by as many frames as have been passed. -/
theorem stepFrames_passes (h : Host ς ε) (sh : Shared) (last : Position) (cursor : Nat)
    (fs : List Frame) (w : World ς) :
    ∃ passed, fs = passed ++ (stepFrames h sh last cursor fs w).ahead ∧
      (stepFrames h sh last cursor fs w).cursor = cursor + passed.length := by
  induction fs generalizing last cursor w with
  | nil => exact ⟨[], by simp [stepFrames], by simp [stepFrames]⟩
  | cons f rest ih =>
    unfold stepFrames
    split
    · split
      · exact ⟨[f], rfl, rfl⟩
      · obtain ⟨passed, h₁, h₂⟩ := ih f.position (cursor + 1) ‹World ς›
        exact ⟨f :: passed, by rw [List.cons_append, ← h₁], by rw [h₂]; simp; omega⟩
    · exact ⟨[], rfl, rfl⟩
    · exact ⟨[], rfl, rfl⟩

end StackSweep.Walk
