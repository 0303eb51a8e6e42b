import StackSweep.World

/-!
# Messages

The lines that a log shows. Readings, stores and visits show nothing themselves; scope calls show
only if the thread asks for it.

The texts are those of the events that `start_iteration_impl`, `update_watermark`, `drain` and
`ProcessingMark` emit.
-/

namespace StackSweep

def ScopeCall.message : ScopeCall → String
  | .suppress was => "suppress (was " ++ Text.truth was ++ ")"
  | .unsuppress previous => "unsuppress (to " ++ Text.truth previous ++ ")"
  | .enterHandles => "enter handles"
  | .exitHandles => "exit handles"
  | .takeError => "take error"
  | .restoreError => "restore error"
  | .enterResources => "enter resources"
  | .exitResources => "exit resources"

namespace Label

def thread (l : Label) : String := "tid " ++ Text.decimal l.tid

/-- The thread and the kind, with more to follow in the parentheses. -/
def opened (l : Label) : String := l.thread ++ " (kind " ++ l.kind.text

end Label

/-- What is written when something happens. -/
def Event.message? : Event → Option String
  | .scope shown call => if shown then some call.message else none
  | .strayError error =>
    some ("WARN: discarding error left pending by stack processing: " ++ Text.quoted error)
  | .walk tid options _ =>
    some ("walk t" ++ Text.decimal tid ++ " registers=" ++ Text.truth options.updateRegisters ++
      " metadata=" ++ Text.truth options.buildMetadata)
  | .epochRead .. | .visit .. | .installed .. | .boundaryStored .. | .wordStored .. => none
  | .started l e =>
    some ("INFO: Starting stack processing iteration for " ++ l.opened ++ ", epoch " ++ e.text ++
      ")")
  | .startFailed l reason =>
    some ("WARN: Failed to start stack processing iteration for " ++ l.thread ++ ": " ++ reason)
  | .finished l e =>
    some ("INFO: Finished stack processing iteration for " ++ l.opened ++ ", epoch " ++ e.text ++
      ")")
  | .draining l => some ("INFO: Processing whole stack for " ++ l.opened ++ ")")
  | .yielding l waiters frames =>
    some ("DEBUG: Yielding stack watermark lock of " ++ l.thread ++ " to " ++
      Text.decimal waiters ++ " waiters after " ++ Text.decimal frames ++ " barrier frames")
  | .note text => some text

mutual

/-- Puts the lines of an event, and of what happened inside it, in front of `lines`. -/
def Event.linesOnto (lines : List String) : Event → List String
  | .visit _ _ inside _ => Event.logOnto lines inside
  | e => match e.message? with
    | some line => line :: lines
    | none => lines

/-- Puts the lines of a log, whose latest event comes first, in front of `lines` in the order in
which they were written. -/
def Event.logOnto (lines : List String) : List Event → List String
  | [] => lines
  | e :: earlier => Event.logOnto (Event.linesOnto lines e) earlier

end

/-- The lines of a log, oldest first. -/
def Event.lines (log : List Event) : List String := Event.logOnto [] log

end StackSweep
