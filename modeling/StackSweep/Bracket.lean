import StackSweep.World

/-!
# Brackets

Frames are only processed inside a bracket. Opening it puts the thread's bookkeeping aside:
handles outside a scope are forbidden, a handle scope and a resource scope are entered, and a
pending error is taken out of sight. Closing it undoes this in reverse order. An error that was
left pending inside is thrown away with a warning.

`Bracket` is `ProcessingMark`: `enter` makes the calls of `ProcessingMark` being created, and
`leave` those of it being dropped.
-/

namespace StackSweep

/-- What an open bracket remembers of the thread. -/
structure Bracket where
  /-- Handles outside a scope were forbidden before. -/
  suppressed : Bool
  /-- The error that was pending before. -/
  preserved : Option String
deriving DecidableEq, Repr

namespace Bracket

variable {ς : Type}

/-- The calls that open a bracket. -/
def opening (b : Bracket) : List ScopeCall :=
  [.suppress b.suppressed, .enterHandles, .takeError, .enterResources]

/-- What is logged when a bracket closes and finds an error that was left pending. -/
def closing (b : Bracket) (shown : Bool) (stray : Option String) : List Event :=
  [.scope shown .exitResources, .scope shown .takeError] ++
    (stray.map Event.strayError).toList ++
    (b.preserved.map fun _ => Event.scope shown .restoreError).toList ++
    [.scope shown .exitHandles, .scope shown (.unsuppress b.suppressed)]

def enter (w : World ς) : Bracket × World ς :=
  let t := w.thread
  let b : Bracket := ⟨t.suppressed, t.pending⟩
  (b, (w.setThread { t with
    suppressed := true
    handles := t.handles + 1
    pending := none
    resources := t.resources + 1 }).recordAll (b.opening.map (.scope t.traced)))

def leave (b : Bracket) (w : World ς) : World ς :=
  let t := w.thread
  (w.setThread { t with
    resources := t.resources - 1
    pending := b.preserved
    handles := t.handles - 1
    suppressed := b.suppressed }).recordAll (b.closing t.traced t.pending)

def layout (b : Bracket) : Text.Layout :=
  .partialRecord "ProcessingMark"
    [("preserved", .optional (b.preserved.map fun e => .atom (Text.quoted e)))]

@[simp] theorem fst_enter (w : World ς) :
    (enter w).1 = ⟨w.thread.suppressed, w.thread.pending⟩ := rfl

@[simp] theorem thread_enter (w : World ς) :
    (enter w).2.thread =
      { w.thread with
        suppressed := true
        handles := w.thread.handles + 1
        pending := none
        resources := w.thread.resources + 1 } := rfl

@[simp] theorem thread_leave (b : Bracket) (w : World ς) :
    (b.leave w).thread =
      { w.thread with
        resources := w.thread.resources - 1
        pending := b.preserved
        handles := w.thread.handles - 1
        suppressed := b.suppressed } := rfl

theorem log_enter (w : World ς) :
    (enter w).2.log = ((enter w).1.opening.map (.scope w.thread.traced)).reverse ++ w.log := rfl

theorem log_leave (b : Bracket) (w : World ς) :
    (b.leave w).log = (b.closing w.thread.traced w.thread.pending).reverse ++ w.log := rfl

/-- A bracket that is closed at once leaves the thread as it was. -/
theorem thread_leave_enter (w : World ς) : ((enter w).1.leave (enter w).2).thread = w.thread := by
  simp

/-- Nothing is logged as stray if nothing was left pending. -/
theorem strayError_not_mem_closing (b : Bracket) (shown : Bool) (e : String) :
    Event.strayError e ∉ b.closing shown none := by
  cases h : b.preserved <;> simp [closing, h]

end Bracket

end StackSweep
