import StackSweep.Sweep.Call

/-!
# Errands

A sequence of calls on sweeps that share a world, made by one party: a single call, or a hook that
is broadcast to every sweep of a thread. It stops at the first call that does not succeed. An
errand that needs a lock which somebody else holds is blocked; it can be run again, from where it
stands, when the lock is free.

`broadcast` is the loop in `on_safepoint`, `on_iteration`, `before_unwind` and `after_unwind` of
`WatermarkSet`.
-/

namespace StackSweep

structure Errand where
  /-- The stage of the current call that wants the lock of a sweep. -/
  stage : Option (Nat × Stage)
  /-- The calls that have not begun. -/
  calls : List (Nat × Call)
  /-- The answers so far. -/
  answers : List Answer
deriving DecidableEq, Repr

namespace Errand

variable {ς ε : Type}

def ofCalls (calls : List (Nat × Call)) : Errand := ⟨none, calls, []⟩

/-- The same call on several sweeps, in order. -/
def broadcast (sweeps : List Nat) (c : Call) : Errand := ofCalls (sweeps.map fun i => (i, c))

/-- How far an errand has come. -/
inductive Progress (ε : Type)
  | finished (o : Outcome ε (List Answer))
  /-- It needs the lock of a sweep that is held by somebody else. -/
  | blocked (sweep : Nat) (rest : Errand)
  /-- It was not given enough turns. -/
  | unfinished

/-- Takes the lock of a sweep for one turn of a stage. -/
def takeTurn (hosts : Nat → Host ς ε) (i : Nat) (stage : Stage) (w : World ς) : Turn ε × World ς :=
  let (t, s, w) := stage.turn (hosts i) (w.sweeps.getD i default) (w.lock i)
  (t, w.unlock i s)

/-- Runs an errand until it is over or blocked, for at most `fuel` turns and calls. Whenever a
drain yields the lock of a sweep, `others` have their turn before the errand goes on. -/
def run (hosts : Nat → Host ς ε) (others : Nat → World ς → World ς) :
    Nat → Errand → World ς → Progress ε × World ς
  | 0, _, w => (.unfinished, w)
  | fuel + 1, ⟨some (i, stage), calls, answers⟩, w =>
    if w.isHeld i then (.blocked i ⟨some (i, stage), calls, answers⟩, w)
    else
      match takeTurn hosts i stage w with
      | (.finished (.ok a), w) => run hosts others fuel ⟨none, calls, answers ++ [a]⟩ w
      | (.finished (.failed e), w) => (.finished (.failed e), w)
      | (.finished (.unwound x), w) => (.finished (.unwound x), w)
      | (.onward next, w) => run hosts others fuel ⟨some (i, next), calls, answers⟩ w
      | (.yielded next, w) => run hosts others fuel ⟨some (i, next), calls, answers⟩ (others i w)
  | _ + 1, ⟨none, [], answers⟩, w => (.finished (.ok answers), w)
  | fuel + 1, ⟨none, (i, c) :: calls, answers⟩, w =>
    match c.openWith (hosts i) (w.sweeps.getD i default).published w with
    | (.settled, w) => run hosts others fuel ⟨none, calls, answers ++ [.nothing]⟩ w
    | (.needs stage, w) => run hosts others fuel ⟨some (i, stage), calls, answers⟩ w

end Errand

end StackSweep
