import StackSweep.Position

/-!
# Threads and their stacks

A thread has a stack of frames, innermost first, and some bookkeeping that has to be put aside
while its frames are processed: scopes for handles and for transient resources, a setting that
forbids handles outside a scope, and an error that may be pending.

A `Frame` is a `StackFrame` and a `Thread` is a `StackThread` with its `ProcessingScopes`.
`lastFrame?` and `sender?` are `last_frame` and `sender`, `topFrame?` is `top_frame`, and
`decidingPosition` is how `is_frame_safe` places a frame.
-/

namespace StackSweep

structure Frame where
  id : Nat
  position : Position
  /-- The frame stops an increment of processing behind it, unless its kind decides otherwise. -/
  barrier : Bool
  /-- The frame has no meaningful position of its own. Questions about it are answered for its
  sender. -/
  trampoline : Bool
deriving DecidableEq, Inhabited, Repr

structure Thread where
  tid : Nat
  /-- The frames, innermost first, unless the thread has no stack at all. -/
  stack : Option (List Frame)
  /-- The stack may be walked. -/
  walkable : Bool
  /-- How many walks have been started. -/
  walks : Nat
  /-- Handles outside a scope are forbidden. -/
  suppressed : Bool
  /-- The handle scopes that are open. -/
  handles : Int
  /-- The resource scopes that are open. -/
  resources : Int
  /-- The error that waits to be noticed. -/
  pending : Option String
  /-- Scope calls are shown in the log. -/
  traced : Bool
deriving DecidableEq, Inhabited, Repr

namespace Thread

/-- The frames, none if there is no stack. -/
def frames (t : Thread) : List Frame := t.stack.getD []

def hasWalkableStack (t : Thread) : Bool := t.walkable && t.stack.isSome

/-- The innermost frame. -/
def lastFrame? (t : Thread) : Option Frame := t.frames.head?

/-- The frame that follows the first one with this number. -/
def senderIn (id : Nat) : List Frame → Option Frame
  | [] => none
  | f :: rest => if f.id = id then rest.head? else senderIn id rest

/-- The caller of a frame. -/
def sender? (t : Thread) (f : Frame) : Option Frame := senderIn f.id t.frames

/-- The frame that counts as running: the innermost one, or its caller if that is a trampoline. -/
def topFrame? (t : Thread) : Option Frame :=
  match t.lastFrame? with
  | none => none
  | some f => if f.trampoline then t.sender? f else some f

/-- The position that decides questions about a frame. -/
def decidingPosition (t : Thread) (f : Frame) : Position :=
  if f.trampoline then
    match t.sender? f with
    | some caller => caller.position
    | none => f.position
  else f.position

theorem decidingPosition_of_not_trampoline {t : Thread} {f : Frame} (h : f.trampoline = false) :
    t.decidingPosition f = f.position := by
  simp [decidingPosition, h]

end Thread

end StackSweep
