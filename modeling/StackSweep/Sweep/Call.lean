import StackSweep.Sweep.Stage

/-!
# Calls

The operations that anyone may call on a sweep. A call first looks at what can be read without the
lock, which may already settle it. Otherwise it goes through stages.

The calls are `advance_one`, `request_iteration_start` (which is also `on_safepoint`),
`drain_to_completion`, `ensure_safe`, `on_iteration`, `before_unwind`, `after_unwind`,
`is_frame_safe` and `last_processed_boundary`.
-/

namespace StackSweep

inductive Call
  /-- One increment of progress, by the thread itself at one of its polling points. -/
  | increment
  /-- Sees to it that the current campaign has been started. Cheap if it has. -/
  | request
  /-- Processes every remaining frame. -/
  | drain (context : Option Nat)
  /-- Processes frames until this one is safe. -/
  | secure (frame : Frame)
  /-- A foreign walk is about to be handed this frame. -/
  | iterate (frame : Frame)
  /-- The running frame is about to return into its caller. -/
  | beforeUnwind
  /-- The running frame has just been returned into. -/
  | afterUnwind
  /-- Whether this frame is safe. -/
  | judge (frame : Frame)
  /-- The boundary inside which every frame is processed. -/
  | locate
deriving DecidableEq, Repr

/-- How a call begins. -/
inductive Opening
  /-- It is settled without the lock. -/
  | settled
  /-- It wants the lock for this stage. -/
  | needs (stage : Stage)
deriving DecidableEq, Repr

namespace Call

variable {ς ε : Type}

/-- Secures a frame, if there is one. -/
def securing : Option Frame → Opening
  | some f => .needs (.secure f)
  | none => .settled

/-- The part of a call that needs no lock. -/
def openWith (h : Host ς ε) (c : Call) (published : Published) (w : World ς) : Opening × World ς :=
  match c with
  | increment => (.needs .increment, w)
  | request =>
    let (e, w) := w.readEpoch h.kind
    (if published.word.isOf e then .settled else .needs .start, w)
  | drain context => (.needs (.drain context), w)
  | secure f => (.needs (.secure f), w)
  | iterate f => (if h.onIteration then .needs (.secure f) else .settled, w)
  | beforeUnwind => (securing (w.thread.topFrame?.bind w.thread.sender?), w)
  | afterUnwind => (securing w.thread.topFrame?, w)
  | judge f => (.needs (.judge f), w)
  | locate => (.needs .locate, w)

/-- The whole call, with nobody else around. -/
def run (h : Host ς ε) (fuel : Nat) (c : Call) (s : Sweep) (w : World ς) :
    Option (Outcome ε Answer) × Sweep × World ς :=
  match c.openWith h s.published w with
  | (.settled, w) => (some (.ok .nothing), s, w)
  | (.needs stage, w) => stage.run h fuel s w

end Call

end StackSweep
