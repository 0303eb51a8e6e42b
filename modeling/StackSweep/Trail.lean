import StackSweep.Position

/-!
# Trails

A walk leaves a trail of two boundaries, the last two it has recorded. Every frame inside the
leading one has been processed. The trailing one is what gets published: it lags one boundary
behind, so that a frame and its caller are never both in the open.

The trailing boundary is the `callee` of a `StackIterator`, the leading one its `caller`, and
`record` is `record_boundary`.
-/

namespace StackSweep

/-- The last two boundaries of a walk. -/
structure Trail where
  /-- The boundary before the last. -/
  trailing : Position
  /-- The last boundary. -/
  leading : Position
deriving DecidableEq, Inhabited, Repr

namespace Trail

def empty : Trail := ⟨.none, .none⟩

/-- Takes in a boundary. The first two fill the trail from its trailing end, and each later one
moves it on. -/
def record (t : Trail) (p : Position) : Trail :=
  if t.trailing.isNone then { t with trailing := p }
  else if t.leading.isNone then { t with leading := p }
  else ⟨t.leading, p⟩

theorem record_empty (p : Position) : empty.record p = ⟨p, .none⟩ := rfl

theorem record_single {p q : Position} (hp : p ≠ .none) :
    (Trail.mk p .none).record q = ⟨p, q⟩ := by
  have : p.isNone = false := by simpa [Bool.eq_false_iff, Position.isNone_iff] using hp
  simp [record, this]

theorem record_full {p q r : Position} (hp : p ≠ .none) (hq : q ≠ .none) :
    (Trail.mk p q).record r = ⟨q, r⟩ := by
  have h₁ : p.isNone = false := by simpa [Bool.eq_false_iff, Position.isNone_iff] using hp
  have h₂ : q.isNone = false := by simpa [Bool.eq_false_iff, Position.isNone_iff] using hq
  simp [record, h₁, h₂]

end Trail

end StackSweep
