import StackSweep.Campaign
import StackSweep.Pacing
import StackSweep.Stack

/-!
# Scripts

A simulated runtime follows a script. Its kinds carry actions, which say what else happens while a
frame is processed, and a session is a list of operations. An action can have another party begin
an operation while the frame is being processed, so that actions and operations contain each
other.
-/

namespace StackSweep.Simulation

/-- A frame that an operation speaks of. -/
inductive FrameRef
  /-- The first frame with this number on the current stack. -/
  | numbered (id : Nat)
  | literal (frame : Frame)
deriving Repr

/-- An operation on one sweep. -/
inductive SweepOp
  | increment
  | request
  /-- Processes the whole stack, with a context of its own or without. -/
  | drain (withContext : Bool)
  | secure (frame : FrameRef)
  | iterate (frame : FrameRef)
  | beforeUnwind
  | afterUnwind
  | judge (frame : FrameRef)
  /-- Judges every frame of the current stack. -/
  | judgeStack
  | locate
  | isAbove (position : Position)
  | hasStarted
  | hasCompleted
  | phase
  | epoch
  | describe

/-- An operation on all sweeps of a thread. -/
inductive RosterOp
  | describe (kind : KindId)
  | hasStarted (kind : KindId)
  | start (kind : KindId)
  | finish (kind : KindId) (withContext : Bool)
  | lowest
  | request
  | iterate (frame : FrameRef)
  | beforeUnwind
  | afterUnwind

/-- A change to a thread. -/
inductive ThreadOp
  | setStack (stack : Option (List Frame))
  /-- Drops that many innermost frames. -/
  | pop (count : Nat)
  /-- Adds an innermost frame. -/
  | push (frame : Frame)
  | setWalkable (value : Bool)
  | setPending (error : Option String)

/-- An operation on the epochs. -/
inductive EpochOp
  | read (kind : KindId)
  | advance (kind : KindId)
  | advanceAll
  | assign (kind : KindId) (epoch : Epoch)

mutual

/-- Something that happens while a frame is processed. -/
inductive Effect
  | fail
  | unwind
  | setPending (error : Option String)
  /-- Starts a campaign, of the own kind unless another is named. -/
  | advance (kind : Option KindId)
  | assign (kind : Option KindId) (epoch : Epoch)
  | setStack (stack : Option (List Frame))
  /-- Decides from now on whether frames with this number have a barrier. -/
  | setBarrier (id : Nat) (value : Bool)
  | observe
  /-- Another party begins an operation, and processing goes on once that is over or has to wait
  for a lock. -/
  | contend (op : Op)

/-- An effect, and when it happens: at frames with the number `site`, at any frame if there is
none; not the first `skip` times, and then `times` times. -/
inductive Action
  | mk (effect : Effect) (site : Option Nat) (times skip : Nat)

/-- A kind to be installed on a thread. -/
inductive Spec
  | mk (kind : KindId) (onIteration : Bool) (actions : List Action) (pacing : Option Pacing)

inductive Op
  | sweep (thread : Nat) (kind : KindId) (op : SweepOp)
  | roster (thread : Nat) (op : RosterOp)
  | thread (thread : Nat) (op : ThreadOp)
  | epochs (op : EpochOp)
  /-- Installs another sweep. -/
  | install (thread : Nat) (spec : Spec)
  /-- Gives a kind more actions. -/
  | arm (thread : Nat) (kind : KindId) (actions : List Action)

end

instance : Inhabited Effect := ⟨.observe⟩

instance : Inhabited Op := ⟨.epochs .advanceAll⟩

instance : Inhabited Spec := ⟨.mk default true [] none⟩

instance : Inhabited Action := ⟨.mk default none 0 0⟩

namespace Action

def effect : Action → Effect
  | .mk e _ _ _ => e

/-- The action concerns frames with this number and has not been used up. -/
def applies (id : Nat) : Action → Bool
  | .mk _ site times _ => 0 < times && site.all (· == id)

/-- The action will let its next occasion pass. -/
def isSkipping : Action → Bool
  | .mk _ _ _ skip => 0 < skip

/-- The action after an occasion to which it applied. -/
def used : Action → Action
  | .mk e site times 0 => .mk e site (times - 1) 0
  | .mk e site times (skip + 1) => .mk e site times skip

end Action

namespace Spec

def kind : Spec → KindId
  | .mk k _ _ _ => k

def onIteration : Spec → Bool
  | .mk _ b _ _ => b

def actions : Spec → List Action
  | .mk _ _ as _ => as

/-- The pacing that was asked for. -/
def pacing? : Spec → Option Pacing
  | .mk _ _ _ p => p

end Spec

end StackSweep.Simulation
