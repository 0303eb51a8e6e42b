import StackSweep.Text.Digits

/-!
# Positions on a stack

A stack grows towards lower addresses, so of two frames the inner one, the more recently called,
has the smaller address. Every comparison of positions goes through `isInner`. Address zero
belongs to no frame: as a boundary it says "no boundary".

`Position` is `FramePosition`. `Position.none` is its `NONE`, and `isInner`, `isOuter` and
`innermost` are `is_inner_than`, `is_outer_than` and `innermost`.
-/

namespace StackSweep

/-- The stack-pointer value of a frame. -/
structure Position where
  addr : Nat
deriving DecidableEq, Inhabited, Repr

namespace Position

/-- The position of no frame. -/
def none : Position := ⟨0⟩

def isNone (p : Position) : Bool := p.addr == 0

/-- A frame at `p` was called, directly or not, by a frame at `q`. -/
def isInner (p q : Position) : Bool := decide (p.addr < q.addr)

def isOuter (p q : Position) : Bool := q.isInner p

/-- Whichever of the two lies closer to the innermost frame. -/
def innermost (p q : Position) : Position := if p.isInner q then p else q

/-- The address as it stands in messages, such as `0x1000`. -/
def text (p : Position) : String := Text.hexadecimal p.addr

/-- The position as it stands in reports. -/
def report (p : Position) : String :=
  if p.isNone then "FramePosition(none)" else "FramePosition(" ++ p.text ++ ")"

theorem ext_iff {p q : Position} : p = q ↔ p.addr = q.addr := by
  cases p; cases q; simp

@[simp] theorem isNone_none : none.isNone = true := rfl

theorem isNone_iff {p : Position} : p.isNone = true ↔ p = none := by
  cases p; simp [isNone, none]

theorem addr_pos_iff {p : Position} : 0 < p.addr ↔ p ≠ none := by
  rw [Ne, ext_iff]
  exact Nat.pos_iff_ne_zero

theorem isInner_iff {p q : Position} : p.isInner q = true ↔ p.addr < q.addr := by
  simp [isInner]

theorem addr_innermost (p q : Position) : (p.innermost q).addr = min p.addr q.addr := by
  unfold innermost isInner
  split <;> simp_all; omega

/-- No position is inner than the missing boundary. -/
@[simp] theorem not_isInner_none (p : Position) : p.isInner none = false := by
  simp [isInner, none]

end Position

end StackSweep
