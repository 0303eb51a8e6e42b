import StackSweep.Campaign
import StackSweep.Position

/-!
# Published progress

What anyone may read about a stack without taking its lock: a boundary and a progress word. A
frame below the boundary needs no look at the lock.

The boundary is `watermark` and the word is `state`, each read by itself. `isAbove` is
`is_above_watermark`.
-/

namespace StackSweep

structure Published where
  /-- Every frame inside the boundary has been processed. Missing before a campaign and after it.
  -/
  boundary : Position
  word : ProgressWord
deriving DecidableEq, Repr

namespace Published

/-- Nothing is left to do for the campaign `e`. -/
def settled (e : Epoch) : Published := ⟨.none, .pack e true⟩

instance : Inhabited Published := ⟨settled 0⟩

/-- A frame at `p` lies in the region that may still need processing. -/
def isAbove (s : Published) (p : Position) : Bool := !s.boundary.isNone && !p.isInner s.boundary

/-- The innermost boundary of several, leaving out the missing ones. -/
def lowestBoundary (all : List Published) : Position :=
  match (all.map boundary).filter (!·.isNone) with
  | [] => .none
  | p :: ps => ps.foldl Position.innermost p

theorem isAbove_iff {s : Published} {p : Position} :
    s.isAbove p = true ↔ s.boundary ≠ .none ∧ s.boundary.addr ≤ p.addr := by
  simp [isAbove, Position.isInner, Position.isNone, Position.none, Position.ext_iff]

end Published

end StackSweep
