import StackSweep.Text.Layout

/-!
# Walk options

How much a walk prepares for the frames it comes to.

These are `WalkOptions`. Sweeps ask for `INCREMENTAL`.
-/

namespace StackSweep

structure WalkOptions where
  /-- The registers are kept up to date as frames are passed. -/
  updateRegisters : Bool
  /-- The metadata of every frame is built ahead of the visit. -/
  buildMetadata : Bool
deriving DecidableEq, Repr

namespace WalkOptions

/-- What an incremental walk needs: metadata is only built for the frames that it visits. -/
def incremental : WalkOptions := ⟨true, false⟩

def layout (o : WalkOptions) : Text.Layout :=
  .record "WalkOptions"
    [("update_registers", .truth o.updateRegisters), ("build_metadata", .truth o.buildMetadata)]

end WalkOptions

end StackSweep
