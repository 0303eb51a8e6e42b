import StackSweep.Simulation.Scene

/-!
# Nested brackets

A script that opens brackets inside each other, and unwinds out of them.
-/

namespace StackSweep.Simulation

inductive NestingItem
  /-- Opens a bracket around the items. -/
  | bracket (body : List NestingItem)
  /-- Stops what unwinds out of the items. -/
  | guarded (body : List NestingItem)
  | setPending (error : Option String)
  | unwind (message : String)
  /-- Shows the innermost bracket. -/
  | describe
  /-- Shows the thread. -/
  | observe

instance : Inhabited NestingItem := ⟨.observe⟩

namespace NestingItem

/-- The two forms of a bracket. -/
def portrait : Option Bracket → String
  | none => "no mark"
  | some b => b.layout.line ++ " " ++ b.layout.indented

mutual

/-- Carries out one item inside the innermost bracket `b`. Answers the message if it unwinds. -/
def run (b : Option Bracket) (w : World Unit) : NestingItem → Option String × World Unit
  | bracket body =>
    let (b, w) := Bracket.enter w
    let (x, w) := runAll (some b) w body
    (x, b.leave w)
  | guarded body =>
    let (x, w) := runAll b w body
    (none, w.record (.note ("caught " ++ x.getD "nothing")))
  | setPending error => (none, { w with thread := { w.thread with pending := error } })
  | unwind message => (some message, w)
  | describe => (none, w.record (.note (portrait b)))
  | observe => (none, w.record (.note (describeThread w.thread)))

/-- Carries out items until one unwinds. -/
def runAll (b : Option Bracket) (w : World Unit) : List NestingItem → Option String × World Unit
  | [] => (none, w)
  | i :: rest =>
    match run b w i with
    | (none, w) => runAll b w rest
    | r => r

end

end NestingItem

/-- Carries out items on a thread. Answers the message if they unwind, the lines, and the thread.
-/
def nesting (thread : Thread) (body : List NestingItem) : Option String × List String × Thread :=
  let (x, w) := NestingItem.runAll none (.ofThread thread (.script []) ()) body
  (x, Event.lines w.log, w.thread)

end StackSweep.Simulation
