import StackSweep.Sweep.Campaigning

/-!
# Stages

An operation on a sweep is a sequence of stages. Each stage takes one turn, for which it holds the
sweep's lock, and the turn says what comes next: the operation is over, or it goes on with another
stage. Between two turns the lock is free. A drain gives it up on purpose, so that others get a
turn before the drain resumes; what they did to the sweep meanwhile, the drain finds when it does.

A turn is what happens between `lock` or `yield_fair` and the next time the guard is given up.
`drainFirst` is `drain_to_completion` with `drain` up to the first `yield_fair`, `drainBatch` is one
round of the loop in `drain`, `secure` and `approach` are the two halves of the loop in
`ensure_safe`, and `judge` and `locate` are `is_frame_safe` and `last_processed_boundary`.
-/

namespace StackSweep

/-- What an operation answers. -/
inductive Answer
  | nothing
  | truth (b : Bool)
  | place (p : Position)
deriving DecidableEq, Repr

/-- What an operation does with the lock in its next turn. -/
inductive Stage
  /-- Makes one increment of progress. -/
  | increment
  /-- Starts the campaign unless someone has. -/
  | start
  /-- Begins to process the whole stack. -/
  | drain (context : Option Nat)
  /-- Goes on with processing the whole stack. -/
  | resume (context : Option Nat)
  /-- Looks whether the frame is safe and is content if so. -/
  | secure (frame : Frame)
  /-- Makes an increment, the frame not being safe. -/
  | approach (frame : Frame)
  /-- Answers whether the frame is safe. -/
  | judge (frame : Frame)
  /-- Answers the boundary inside which every frame is processed. -/
  | locate
deriving DecidableEq, Repr

/-- How a turn ended. -/
inductive Turn (ε : Type)
  | finished (o : Outcome ε Answer)
  /-- The operation wants the lock again at once. -/
  | onward (next : Stage)
  /-- The operation has given the lock to whoever waits for it. -/
  | yielded (next : Stage)

namespace Stage

variable {ς ε : Type}

/-- The operation ends with this outcome and answers nothing. -/
def ended (r : Outcome ε Unit × Sweep × World ς) : Turn ε × Sweep × World ς :=
  (.finished (r.1.map fun _ => .nothing), r.2)

/-- One batch of a drain. After a full interval the drain publishes and yields; otherwise it
concludes. -/
def drainBatch (h : Host ς ε) (context : Option Nat) (s : Sweep) (w : World ς) :
    Turn ε × Sweep × World ς :=
  match s.walk with
  | none => ended (s.conclude h (.ok ()) w)
  | some k =>
    match k.batch h ⟨context, s.published⟩ h.pacing.framesPerYield w with
    | (.ok .interval, k, w) =>
      match Sweep.publish h { s with walk := some k } w with
      | (none, s, w) =>
        (.yielded (.resume context), s,
          w.record (.yielding (h.label w) (h.waiters w) h.pacing.framesPerYield))
      | (some x, s, w) => (.finished (.unwound x), s, w)
    | (.ok .exhausted, k, w) => ended (Sweep.conclude h (.ok ()) { s with walk := some k } w)
    | (.failed e, k, w) => ended (Sweep.conclude h (.failed e) { s with walk := some k } w)
    | (.unwound x, k, w) => (.finished (.unwound x), { s with walk := some k }, w)

/-- The first turn of a drain. -/
def drainFirst (h : Host ς ε) (context : Option Nat) (s : Sweep) (w : World ς) :
    Turn ε × Sweep × World ς :=
  match s.ensureStarted h context w with
  | (.ok (), s, w) =>
    match s.walk with
    | none => ended (s.conclude h (.ok ()) w)
    | some _ => drainBatch h context s (w.record (.draining (h.label w)))
  | r => ended r

/-- Takes one turn. -/
def turn (h : Host ς ε) : Stage → Sweep → World ς → Turn ε × Sweep × World ς
  | increment, s, w => ended (s.increment h w)
  | start, s, w => ended (s.ensureStarted h none w)
  | drain context, s, w => drainFirst h context s w
  | resume context, s, w => drainBatch h context s w
  | secure f, s, w =>
    let (safe, w) := s.isSafe h f w
    (if safe then .finished (.ok .nothing) else .onward (approach f), s, w)
  | approach f, s, w =>
    match s.increment h w with
    | (.ok (), s, w) => (.onward (secure f), s, w)
    | r => ended r
  | judge f, s, w =>
    let (safe, w) := s.isSafe h f w
    (.finished (.ok (.truth safe)), s, w)
  | locate, s, w =>
    let (p, w) := s.lastBoundary h w
    (.finished (.ok (.place p)), s, w)

/-- Takes turns until the operation is over, with nobody else around, but not more than `fuel`.
Answers nothing if that was not enough. -/
def run (h : Host ς ε) : Nat → Stage → Sweep → World ς → Option (Outcome ε Answer) × Sweep × World ς
  | 0, _, s, w => (none, s, w)
  | fuel + 1, stage, s, w =>
    match stage.turn h s w with
    | (.finished o, s, w) => (some o, s, w)
    | (.onward next, s, w) => run h fuel next s w
    | (.yielded next, s, w) => run h fuel next s w

/-- More fuel does not change a finished run. -/
theorem run_mono (h : Host ς ε) {fuel fuel' : Nat} (le : fuel ≤ fuel') {stage : Stage}
    {s s' : Sweep} {w w' : World ς} {o : Outcome ε Answer}
    (done : run h fuel stage s w = (some o, s', w')) :
    run h fuel' stage s w = (some o, s', w') := by
  induction fuel generalizing fuel' stage s w with
  | zero => cases done
  | succ n ih =>
    obtain ⟨m, rfl⟩ : ∃ m, fuel' = m + 1 := ⟨fuel' - 1, by omega⟩
    unfold run at done ⊢
    split <;> rename_i eq <;> rw [eq] at done
    · exact done
    · exact ih (by omega) done
    · exact ih (by omega) done

end Stage

end StackSweep
