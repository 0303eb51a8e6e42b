import StackSweep.Campaign
import StackSweep.Position

/-!
# Outcomes

An operation ends in one of three ways: with a value, with the error of the processor, or by
unwinding because something that must not happen did happen.

A `Fault` is what a panic says: those of `has_next`, `drain_batch`, `update_watermark`, of the
counter and of `WatermarkSet`, and whatever a processor may raise.
-/

namespace StackSweep

/-- What makes an operation unwind. -/
inductive Fault
  /-- Code outside the library gave up. -/
  | raised (message : String)
  /-- A frame was asked of a walk that has none left. -/
  | exhausted
  /-- A drain met a frame inside the region that it takes for processed. -/
  | insideProcessed (frame boundary : Position)
  /-- A walk with frames left has no boundary to publish. -/
  | noBoundary
  /-- The epoch of a kind was asked of a counter that does not count it. -/
  | unregistered (kind : KindId) (kinds : Nat)
  /-- A thread already has a watermark of the kind. -/
  | alreadyInstalled (kind : KindId) (tid : Nat)
  /-- A thread has no watermark of the kind. -/
  | notInstalled (kind : KindId)
deriving DecidableEq, Repr

def Fault.message : Fault → String
  | .raised message => message
  | .exhausted => "assertion failed: self.has_next()"
  | .insideProcessed frame boundary =>
    "frame at " ++ frame.text ++ " lies inside the region already processed up to " ++ boundary.text
  | .noBoundary => "sanity"
  | .unregistered kind kinds =>
    "campaign kind " ++ kind.text ++ " is not registered with this counter (" ++
      Text.decimal kinds ++ " kinds)"
  | .alreadyInstalled kind tid =>
    "a stack watermark for kind " ++ kind.text ++ " is already installed on tid " ++
      Text.decimal tid
  | .notInstalled kind => "no stack watermark for kind " ++ kind.text ++ " is installed"

/-- How an operation ended. -/
inductive Outcome (ε α : Type)
  | ok (value : α)
  | failed (error : ε)
  | unwound (fault : Fault)
deriving DecidableEq, Repr

namespace Outcome

variable {ε α β : Type}

def isOk : Outcome ε α → Bool
  | .ok _ => true
  | _ => false

def map (f : α → β) : Outcome ε α → Outcome ε β
  | .ok a => .ok (f a)
  | .failed e => .failed e
  | .unwound f => .unwound f

end Outcome

end StackSweep
