import StackSweep.Errand
import StackSweep.Sweep.Section

/-!
# Strands

An errand, move by move, of a party that is not alone. While it is in a locked section it moves
with the section. Between two sections it holds no lock, and needs one more move to begin the next
call or to take the lock that its stage wants. A strand that wants a lock that somebody else holds
cannot move.

A strand is an OS thread in one of the calls, or in one of the hooks of `WatermarkSet`. It is
blocked while it waits in `lock`.
-/

namespace StackSweep

/-- An errand under way. -/
structure Strand (ε : Type) where
  /-- The section it is in, and the sweep whose lock it holds for that. -/
  inside : Option (Nat × Section ε)
  /-- What comes after the section. -/
  errand : Errand
deriving DecidableEq, Repr

namespace Strand

variable {ς ε : Type}

/-- Where a move has led. -/
inductive Next (ε : Type)
  | going (x : Strand ε)
  /-- It needs the lock of a sweep that is held by somebody else. -/
  | blocked (sweep : Nat)
  | ended (o : Outcome ε (List Answer))

/-- An errand that has not moved. -/
def ofErrand (errand : Errand) : Strand ε := ⟨none, errand⟩

/-- Goes on from where a turn on a sweep stands. If it is over, the lock is given back. -/
def carryOn (i : Nat) (calls : List (Nat × Call)) (answers : List Answer) :
    Standing ε × World ς → Next ε × World ς
  | (.going x, w) => (.going ⟨some (i, x), ⟨none, calls, answers⟩⟩, w)
  | (.released turn s, w) =>
    (match turn with
      | .finished (.ok a) => .going (ofErrand ⟨none, calls, answers ++ [a]⟩)
      | .finished (.failed e) => .ended (.failed e)
      | .finished (.unwound x) => .ended (.unwound x)
      | .onward next | .yielded next => .going (ofErrand ⟨some (i, next), calls, answers⟩),
      w.unlock i s)

/-- Makes a move. -/
def move (hosts : Nat → Host ς ε) (x : Strand ε) (w : World ς) : Next ε × World ς :=
  match x with
  | ⟨some (i, y), errand⟩ => carryOn i errand.calls errand.answers (y.move (hosts i) w)
  | ⟨none, ⟨some (i, stage), calls, answers⟩⟩ =>
    if w.isHeld i then (.blocked i, w)
    else carryOn i calls answers (stage.begin (hosts i) (w.sweeps.getD i default) (w.lock i))
  | ⟨none, ⟨none, [], answers⟩⟩ => (.ended (.ok answers), w)
  | ⟨none, ⟨none, (i, c) :: calls, answers⟩⟩ =>
    match c.openWith (hosts i) (w.sweeps.getD i default).published w with
    | (.settled, w) => (.going (ofErrand ⟨none, calls, answers ++ [.nothing]⟩), w)
    | (.needs stage, w) => (.going (ofErrand ⟨some (i, stage), calls, answers⟩), w)

/-- The bracket that is open. -/
def bracket? (x : Strand ε) : Option Bracket := x.inside.bind fun (_, y) => y.bracket?

/-- The next move hands a frame to the processor. -/
def isVisiting (x : Strand ε) : Bool := x.inside.any fun (_, y) => y.isVisiting

end Strand

end StackSweep
