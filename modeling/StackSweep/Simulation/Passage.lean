import StackSweep.Simulation.Processor

/-!
# Passages

A simulated kind takes a walk over a simulated thread, without a sweep around it.
-/

namespace StackSweep.Simulation

/-- An operation on a walk. -/
inductive WalkOp
  | step (withContext : Bool)
  | batch (interval : Nat) (withContext : Bool)
  | record (position : Position)
  | advance
  | current
  | describe
  | arm (actions : List Action)
  | setPending (error : Option String)

/-- What a step of a passage shows. -/
structure WalkView where
  reply : Reply
  lines : List String
  walk : Walk
  /-- What the context of this step has seen. -/
  seen : List Nat
  thread : Thread

namespace Passage

/-- The host of the only kind. -/
def host (w : Theatre) : Host Scene FrameError := hostOf ⟨fun _ w => w, id, false⟩ (w.member 0) 0

/-- The reply to a pass. -/
def replyTo {α : Type} (f : α → Reply) : Outcome FrameError α → Reply
  | .ok a => f a
  | .failed e => .failed e.message
  | .unwound x => .unwound x.message

/-- A context, if one is wanted. -/
def context (withContext : Bool) (w : Theatre) : Option Nat × Theatre :=
  if withContext then
    let (c, w) := w.newContext
    (some c, w)
  else (none, w)

/-- Carries out one operation. Answers the reply, the walk, the context that was passed along and
the theatre. -/
def perform (k : Walk) (w : Theatre) : WalkOp → Reply × Walk × Option Nat × Theatre
  | .step withContext =>
    let (c, w) := context withContext w
    let (o, k, w) := k.step (host w) ⟨c, default⟩ w
    (replyTo (fun _ => .ok) o, k, c, w)
  | .batch interval withContext =>
    let (c, w) := context withContext w
    let (o, k, w) := k.batch (host w) ⟨c, default⟩ interval w
    (replyTo (fun e => .text e.name) o, k, c, w)
  | .record p => (.nothing, k.record p, none, w)
  | .advance => (.nothing, k.advance, none, w)
  | .current =>
    (match k.current with
      | .ok (f, registers) => .frame f.id registers
      | .error x => .unwound x.message, k, none, w)
  | .describe => (.layout k.layout, k, none, w)
  | .arm actions =>
    (.nothing, k, none, w.modifyMember 0 fun m => { m with actions := m.actions ++ actions })
  | .setPending error => (.nothing, k, none, w.modifyThread ({ · with pending := error }))

/-- Carries out operations one after another. -/
def performAll (k : Walk) (w : Theatre) : List WalkOp → List WalkView
  | [] => []
  | op :: ops =>
    let (r, k, c, w) := perform k w op
    let (lines, w) := w.takeLines
    ⟨r, lines, k, (c.map w.seenBy).getD [], w.thread⟩ :: performAll k w ops

end Passage

/-- Begins a walk over a thread's stack and carries out operations on it. -/
def passage (thread : Thread) (spec : Spec) (ops : List WalkOp) : List WalkView :=
  let w := Theatre.ofThreads [thread] (.counter (.ofKinds 1))
  let m : Member := ⟨0, spec.kind, .standard, spec.onIteration, spec.actions, []⟩
  let (k, w) := World.walkStack { w with rest := { w.rest with members := [m] } } .incremental
  Passage.performAll k w ops

end StackSweep.Simulation
