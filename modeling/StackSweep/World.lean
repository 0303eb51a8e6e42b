import StackSweep.Authority
import StackSweep.Pacing
import StackSweep.Sweep.Basic
import StackSweep.Walk.Options

/-!
# The world of a sweep

What operations can read and change besides the sweep they work on: the thread, the epochs, the
other sweeps and their locks, and a log of everything that happened. A host is what a runtime
plugs in: which frames stop an increment, and how a frame is processed.

Processing a frame may do anything to the world. Its own entries in the log stay inside the entry
of the visit, so that the log of an operation is the operation's own.

`Host` is `BarrierKind`: `hasBarrier`, `process` and `onIteration` are `has_barrier`, `process` and
`process_on_iteration`. It also holds the pacing of the sweep and what `waiters` of its lock
answers. `walkStack` is `walk_stack`.
-/

namespace StackSweep

/-- One call of the thread's bookkeeping. -/
inductive ScopeCall
  | suppress (was : Bool)
  | unsuppress (previous : Bool)
  | enterHandles
  | exitHandles
  | takeError
  | restoreError
  | enterResources
  | exitResources
deriving DecidableEq, Repr

/-- How a visit ended. -/
inductive Verdict
  | processed
  | failed
  | unwound
deriving DecidableEq, Repr

def Outcome.verdict {ε α : Type} : Outcome ε α → Verdict
  | .ok _ => .processed
  | .failed _ => .failed
  | .unwound _ => .unwound

namespace Outcome

variable {ε α : Type}

@[simp] theorem verdict_ok (a : α) : (ok a : Outcome ε α).verdict = .processed := rfl

@[simp] theorem verdict_failed (e : ε) : (failed e : Outcome ε α).verdict = .failed := rfl

@[simp] theorem verdict_unwound (x : Fault) : (unwound x : Outcome ε α).verdict = .unwound := rfl

end Outcome

/-- A frame handed to the processor. -/
structure Visit where
  frame : Frame
  /-- The registers at the frame. -/
  registers : Nat
  /-- The context that the caller passed along, if any. -/
  context : Option Nat
  /-- What the sweep has published when the visit begins. -/
  published : Published
deriving DecidableEq, Repr

/-- Whose doing an entry in the log is. -/
structure Label where
  tid : Nat
  kind : KindId
deriving DecidableEq, Repr

/-- Something that happened. -/
inductive Event
  /-- A call of the thread's bookkeeping, and whether the thread shows it. -/
  | scope (shown : Bool) (call : ScopeCall)
  /-- An error that processing left pending was thrown away. -/
  | strayError (error : String)
  /-- The epoch of a kind was read. -/
  | epochRead (kind : KindId) (epoch : Epoch)
  /-- A walk over a thread's stack began, which then had these frames. -/
  | walk (tid : Nat) (options : WalkOptions) (frames : List Frame)
  /-- A frame was handed to the processor. Inside is what happened until that ended, latest first.
  -/
  | visit (label : Label) (visit : Visit) (inside : List Event) (verdict : Verdict)
  /-- A new boundary was published. -/
  | boundaryStored (label : Label) (boundary : Position)
  /-- A new progress word was published. -/
  | wordStored (label : Label) (word : ProgressWord)
  | started (label : Label) (epoch : Epoch)
  | startFailed (label : Label) (reason : String)
  /-- The first steps of a campaign succeeded, and its walk was put in place. -/
  | installed (label : Label) (epoch : Epoch)
  | finished (label : Label) (epoch : Epoch)
  | draining (label : Label)
  | yielding (label : Label) (waiters frames : Nat)
  /-- A line that code outside the library wrote. -/
  | note (text : String)

structure World (ς : Type) where
  /-- The thread whose stack is at hand. -/
  thread : Thread
  epochs : Authority
  /-- Every sweep there is. One whose lock is taken stands here as it was when that happened. -/
  sweeps : List Sweep
  /-- The sweeps whose locks are taken. -/
  held : List Nat
  /-- What happened, latest first. -/
  log : List Event
  /-- What belongs to the runtime. -/
  rest : ς

/-- What a runtime plugs into a sweep. -/
structure Host (ς ε : Type) where
  kind : KindId
  pacing : Pacing
  /-- Frames handed to a foreign walk have to be safe first. -/
  onIteration : Bool
  hasBarrier : Frame → World ς → Bool
  process : Visit → World ς → Outcome ε Unit × World ς
  /-- The text of an error. -/
  describe : ε → String
  /-- How many others wait for the lock of the sweep. -/
  waiters : World ς → Nat

namespace World

variable {ς : Type}

/-- A world with one thread, in which nothing has happened. -/
def ofThread (thread : Thread) (epochs : Authority) (rest : ς) : World ς where
  thread := thread
  epochs := epochs
  sweeps := []
  held := []
  log := []
  rest := rest

def record (w : World ς) (e : Event) : World ς := { w with log := e :: w.log }

/-- Logs several events, given in the order in which they happen. -/
def recordAll (w : World ς) (es : List Event) : World ς := { w with log := es.reverse ++ w.log }

def setThread (w : World ς) (t : Thread) : World ς := { w with thread := t }

/-- Reads the current epoch of a kind. -/
def readEpoch (w : World ς) (k : KindId) : Epoch × World ς :=
  let (e, a) := w.epochs.read k
  (e, { w with epochs := a, log := .epochRead k e :: w.log })

/-- Begins a walk over the stack as it is now. -/
def walkStack (w : World ς) (options : WalkOptions) : Walk × World ς :=
  (.ofFrames w.thread.frames,
    (w.setThread { w.thread with walks := w.thread.walks + 1 }).record
      (.walk w.thread.tid options w.thread.frames))

/-- The lock of the sweep is taken. -/
def isHeld (w : World ς) (i : Nat) : Bool := w.held.contains i

/-- Takes the lock of a sweep. -/
def lock (w : World ς) (i : Nat) : World ς := { w with held := i :: w.held }

/-- Gives back a sweep and its lock. -/
def unlock (w : World ς) (i : Nat) (s : Sweep) : World ς :=
  { w with held := w.held.erase i, sweeps := w.sweeps.set i s }

@[simp] theorem thread_record (w : World ς) (e : Event) : (w.record e).thread = w.thread := rfl

@[simp] theorem log_record (w : World ς) (e : Event) : (w.record e).log = e :: w.log := rfl

@[simp] theorem epochs_record (w : World ς) (e : Event) : (w.record e).epochs = w.epochs := rfl

@[simp] theorem thread_recordAll (w : World ς) (es : List Event) :
    (w.recordAll es).thread = w.thread := rfl

@[simp] theorem log_recordAll (w : World ς) (es : List Event) :
    (w.recordAll es).log = es.reverse ++ w.log := rfl

@[simp] theorem epochs_recordAll (w : World ς) (es : List Event) :
    (w.recordAll es).epochs = w.epochs := rfl

@[simp] theorem thread_setThread (w : World ς) (t : Thread) : (w.setThread t).thread = t := rfl

@[simp] theorem log_setThread (w : World ς) (t : Thread) : (w.setThread t).log = w.log := rfl

@[simp] theorem epochs_setThread (w : World ς) (t : Thread) :
    (w.setThread t).epochs = w.epochs := rfl

@[simp] theorem thread_readEpoch (w : World ς) (k : KindId) : (w.readEpoch k).2.thread = w.thread :=
  rfl

@[simp] theorem log_readEpoch (w : World ς) (k : KindId) :
    (w.readEpoch k).2.log = .epochRead k (w.readEpoch k).1 :: w.log := rfl

end World

namespace Host

variable {ς ε : Type}

/-- The label of what this host's sweep does to the world's thread. -/
def label (h : Host ς ε) (w : World ς) : Label := ⟨w.thread.tid, h.kind⟩

/-- Hands a frame to the processor and logs the visit. -/
def visit (h : Host ς ε) (v : Visit) (w : World ς) : Outcome ε Unit × World ς :=
  let (o, after) := h.process v { w with log := [] }
  (o, { after with log := .visit (h.label w) v after.log o.verdict :: w.log })

end Host

end StackSweep
