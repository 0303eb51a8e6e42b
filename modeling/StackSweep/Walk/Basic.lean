import StackSweep.Outcome
import StackSweep.Stack
import StackSweep.Trail

/-!
# Walks

A walk passes over a copy of a stack once, innermost frame first. It knows the frames that lie
ahead, how many lie behind, and the trail of boundaries that it has recorded.

`Walk` is `StackIterator` around a walker of the stack as it was: `ofFrames` is `new`, and
`hasNext`, `current`, `advance` and `record` are `has_next`, `current_frame` with
`current_registers`, `advance` and `record_boundary`.
-/

namespace StackSweep

structure Walk where
  /-- How many times the walk has moved on. It also stands for the registers at the next frame. -/
  cursor : Nat
  /-- The frames that have not been passed, innermost first. -/
  ahead : List Frame
  trail : Trail
deriving DecidableEq, Inhabited, Repr

namespace Walk

/-- A walk over these frames that stands before the first. -/
def ofFrames (frames : List Frame) : Walk := ⟨0, frames, .empty⟩

def hasNext (k : Walk) : Bool := !k.ahead.isEmpty

/-- The next frame and its registers. -/
def current (k : Walk) : Except Fault (Frame × Nat) :=
  match k.ahead with
  | f :: _ => .ok (f, k.cursor)
  | [] => .error .exhausted

/-- Passes the next frame, if there is one. -/
def advance (k : Walk) : Walk := { k with cursor := k.cursor + 1, ahead := k.ahead.tail }

/-- Takes a boundary into the trail. A walk that has passed every frame has none to record. -/
def record (k : Walk) (p : Position) : Walk :=
  if k.hasNext then { k with trail := k.trail.record p } else k

def layout (k : Walk) : Text.Layout :=
  .partialRecord "StackIterator"
    [("callee", .atom k.trail.trailing.report), ("caller", .atom k.trail.leading.report),
     ("is_done", .truth (!k.hasNext))]

@[simp] theorem hasNext_mk_nil (c : Nat) (t : Trail) : (Walk.mk c [] t).hasNext = false := rfl

@[simp] theorem hasNext_mk_cons (c : Nat) (f : Frame) (fs : List Frame) (t : Trail) :
    (Walk.mk c (f :: fs) t).hasNext = true := rfl

theorem hasNext_iff {k : Walk} : k.hasNext = true ↔ k.ahead ≠ [] := by
  simp [hasNext]

@[simp] theorem ahead_record (k : Walk) (p : Position) : (k.record p).ahead = k.ahead := by
  unfold record; split <;> rfl

@[simp] theorem cursor_record (k : Walk) (p : Position) : (k.record p).cursor = k.cursor := by
  unfold record; split <;> rfl

theorem mk_trail_record (cursor : Nat) (fs : List Frame) (t : Trail) (p : Position) :
    Walk.mk cursor fs ((Walk.mk cursor fs t).record p).trail = (Walk.mk cursor fs t).record p := by
  unfold record
  split <;> rfl

theorem record_of_done {k : Walk} (h : k.hasNext = false) (p : Position) : k.record p = k := by
  simp [record, h]

end Walk

end StackSweep
