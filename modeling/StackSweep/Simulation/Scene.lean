import StackSweep.Message
import StackSweep.Roster
import StackSweep.Simulation.Script
import StackSweep.Strand

/-!
# Scenes

What the simulated runtime keeps besides the sweeps: its threads, the kinds with their actions,
the contexts that drains pass along, and the operations of other parties that wait for a lock or
are under way. One thread at a time is the world's thread; the others wait in the scene.

The threads are `StackThread`s on which any stack can be put.
-/

namespace StackSweep.Simulation

/-- The error of the simulated processor. -/
structure FrameError where
  id : Nat
deriving DecidableEq, Repr

def FrameError.message (e : FrameError) : String := "failed to process frame " ++ Text.decimal e.id

/-- The turns that the simulation takes at most for something that need not end. A job that ends
takes about two for each frame it processes, and a visit takes one for each action of the kind. -/
def patience : Nat := 1000000000

/-- The actions that are gone through until somebody who waits for a lock has noticed that it is
free. -/
def latency : Nat := 100

/-- What an operation of a session answers. -/
inductive Reply
  | nothing
  | ok
  | failed (message : String)
  | unwound (message : String)
  | refused (error : PacingError)
  | truth (b : Bool)
  | truths (bs : List Bool)
  | number (n : Nat)
  | text (s : String)
  | layout (l : Text.Layout)
  | frame (id registers : Nat)
  /-- The answer of a drain with a context, and the frames that the context has seen. -/
  | drained (reply : Reply) (seen : List Nat)
  | portrait (tid : Nat) (kind : KindId) (pacing : Pacing) (layout : Text.Layout)
  | listing (kinds : List KindId) (isInstalled : Bool) (layout : Text.Layout)
  /-- The operation did not end within the patience of the simulation. -/
  | unfinished

/-- How the answers of an errand make up a reply. -/
inductive Form
  /-- The answer of the only call. -/
  | single
  /-- The answers of all calls. -/
  | all
  /-- Success or not. -/
  | success
  /-- Success or not, with what a context has seen. -/
  | seenBy (context : Nat)

/-- An errand on the sweeps of one thread. -/
structure Job where
  thread : Nat
  errand : Errand
  form : Form

/-- A job that waits for the lock of a sweep. -/
structure Waiting where
  sweep : Nat
  job : Job
  /-- Its place among the replies of the parties that came in meanwhile. -/
  slot : Nat
  /-- When it will have noticed that the lock is free, if it is. -/
  ready : Option Nat

/-- A job under way, while other parties are at work too. -/
structure Beside where
  thread : Nat
  strand : Strand FrameError
  form : Form
  slot : Nat
  /-- Until when it is busy with the last frame that it has handed to the processor. -/
  due : Nat

/-- A kind as installed on a thread. -/
structure Member where
  thread : Nat
  kind : KindId
  pacing : Pacing
  onIteration : Bool
  actions : List Action
  /-- What has been decided about barriers, latest first. -/
  barriers : List (Nat × Bool)

instance : Inhabited Member := ⟨⟨0, default, default, true, [], []⟩⟩

structure Scene where
  /-- Every thread. The one in focus stands here as it was when the focus came. -/
  threads : List Thread
  /-- Which thread is the world's. -/
  focus : Nat
  /-- The kinds, one for each sweep. -/
  members : List Member
  /-- The sweeps of each thread. -/
  rosters : List Roster
  /-- The frames that each context has seen, latest first. -/
  contexts : List (List Nat)
  /-- The jobs that wait for locks, in order. -/
  waiting : List Waiting
  /-- The jobs that are under way besides the one that is being run. -/
  beside : List Beside
  /-- The actions that have been gone through, which is how time is told. -/
  clock : Nat
  /-- What the parties that came in meanwhile have been told, in order. -/
  told : List (Option Reply)

/-- The world of a simulation. -/
abbrev Theatre := World Scene

namespace Theatre

/-- A theatre with these threads, the first of which is in focus. -/
def ofThreads (threads : List Thread) (epochs : Authority) : Theatre :=
  .ofThread (threads.head?.getD default) epochs
    ⟨threads, 0, [], threads.map fun _ => default, [], [], [], 0, []⟩

/-- Every thread as it is now. -/
def threads (w : Theatre) : List Thread := w.rest.threads.set w.rest.focus w.thread

/-- Makes a thread the world's. -/
def focusOn (t : Nat) (w : Theatre) : Theatre :=
  { w with
    thread := w.threads.getD t default
    rest := { w.rest with threads := w.threads, focus := t } }

def member (w : Theatre) (i : Nat) : Member := w.rest.members.getD i default

def modifyMember (w : Theatre) (i : Nat) (f : Member → Member) : Theatre :=
  { w with rest := { w.rest with members := w.rest.members.modify i f } }

def roster (w : Theatre) (t : Nat) : Roster := w.rest.rosters.getD t default

def sweep (w : Theatre) (i : Nat) : Sweep := w.sweeps.getD i default

def readEpoch (w : Theatre) (k : KindId) : Epoch × Theatre := World.readEpoch w k

def modifyThread (w : Theatre) (f : Thread → Thread) : Theatre := { w with thread := f w.thread }

/-- The lines logged so far, which are then forgotten. -/
def takeLines (w : Theatre) : List String × Theatre := (Event.lines w.log, { w with log := [] })

def note (w : Theatre) (text : String) : Theatre := w.record (.note text)

/-- Opens a context that has seen nothing. -/
def newContext (w : Theatre) : Nat × Theatre :=
  (w.rest.contexts.length, { w with rest := { w.rest with contexts := w.rest.contexts ++ [[]] } })

/-- The frames that a context has seen, in order. -/
def seenBy (w : Theatre) (c : Nat) : List Nat := (w.rest.contexts.getD c []).reverse

/-- Lets a context see a frame. -/
def showFrame (w : Theatre) (id : Nat) : Option Nat → Theatre
  | none => w
  | some c =>
    { w with rest := { w.rest with contexts := w.rest.contexts.modify c (id :: ·) } }

/-- Keeps a place for the reply to a party that comes in. -/
def newSlot (w : Theatre) : Nat × Theatre :=
  (w.rest.told.length, { w with rest := { w.rest with told := w.rest.told ++ [none] } })

def tell (w : Theatre) (slot : Nat) (r : Reply) : Theatre :=
  { w with rest := { w.rest with told := w.rest.told.set slot (some r) } }

/-- Has a job wait. -/
def park (w : Theatre) (p : Waiting) : Theatre :=
  { w with rest := { w.rest with waiting := w.rest.waiting ++ [p] } }

/-- Takes out the jobs that wait and meet a condition. -/
def unpark (w : Theatre) (ready : Waiting → Bool) : List Waiting × Theatre :=
  let (go, stay) := w.rest.waiting.partition ready
  (go, { w with rest := { w.rest with waiting := stay } })

/-- Takes out the jobs that have noticed that the lock they wait for is free. -/
def wake (w : Theatre) : List Waiting × Theatre :=
  let notice (p : Waiting) : Waiting :=
    { p with
      ready := if w.isHeld p.sweep then none else some (p.ready.getD (w.rest.clock + latency)) }
  unpark { w with rest := { w.rest with waiting := w.rest.waiting.map notice } } fun p =>
    p.ready.any (· ≤ w.rest.clock)

/-- Has a job under way be busy. -/
def join (w : Theatre) (p : Beside) : Theatre :=
  { w with rest := { w.rest with beside := w.rest.beside ++ [p] } }

/-- Takes out the jobs under way that meet a condition. -/
def part (w : Theatre) (ready : Beside → Bool) : List Beside × Theatre :=
  let (go, stay) := w.rest.beside.partition ready
  (go, { w with rest := { w.rest with beside := stay } })

def setClock (w : Theatre) (time : Nat) : Theatre :=
  { w with rest := { w.rest with clock := time } }

/-- How many jobs wait for the lock of a sweep. -/
def waitersFor (w : Theatre) (i : Nat) : Nat := w.rest.waiting.countP fun p => p.sweep == i

end Theatre

/-- One line about the bookkeeping of a thread. -/
def describeThread (t : Thread) : String :=
  "pending=" ++ t.pending.getD "none" ++ " handles=" ++ Text.signed t.handles ++ " resources=" ++
    Text.signed t.resources ++ " suppressed=" ++ Text.truth t.suppressed

end StackSweep.Simulation
