import StackSweep.Simulation.Scene

/-!
# A minimal runtime

A runtime that does no more than it has to: one thread with a fixed stack, one kind, one epoch for
everything, and a processor that fails only at the greatest position.
-/

namespace StackSweep.Simulation

inductive MinimalOp
  | setEpoch (epoch : Epoch)
  | increment
  | drain
  | iterate (frame : Nat)
  | beforeUnwind
  | afterUnwind
  | judge (frame : Nat)
  | locate

structure MinimalView where
  reply : Reply
  lines : List String
  layout : Text.Layout

namespace Minimal

/-- The processor fails with one error, which has no text of its own. -/
inductive Unprintable
  | mk

def Unprintable.message (_ : Unprintable) : String :=
  "an error occurred when formatting an argument"

def greatest : Nat := 18446744073709551615

/-- The `every`-th frames have barriers, beginning with the innermost. -/
def thread (positions : List Position) (every : Nat) : Thread where
  tid := greatest
  stack := some (positions.zipIdx.map fun (p, i) => ⟨i, p, i % every == 0, false⟩)
  walkable := true
  walks := 0
  suppressed := false
  handles := 0
  resources := 0
  pending := none
  traced := false

def host : Host Unit Unprintable where
  kind := ⟨255⟩
  pacing := .standard
  onIteration := true
  hasBarrier f _ := f.barrier
  process v w :=
    let w := w.record (.note ("process " ++ Text.decimal v.frame.id))
    (if v.frame.position.addr = greatest then .failed .mk else .ok (), w)
  describe := Unprintable.message
  waiters _ := 0

/-- The lines of a log. Walks show nothing here. -/
def lines (log : List Event) : List String :=
  Event.lines (log.filter fun | .walk .. => false | _ => true)

def replyTo : Option (Outcome Unprintable Answer) → Reply
  | none => .unfinished
  | some (.ok .nothing) => .ok
  | some (.ok (.truth b)) => .truth b
  | some (.ok (.place p)) => .number p.addr
  | some (.failed e) => .failed e.message
  | some (.unwound x) => .unwound x.message

/-- A turn for every frame and every look at one is more than any operation takes. -/
def turns (w : World Unit) : Nat := 4 * w.thread.frames.length + 8

/-- The call that an operation makes. -/
def callOf (w : World Unit) : MinimalOp → Option Call
  | .setEpoch _ => none
  | .increment => some .increment
  | .drain => some (.drain none)
  | .iterate i => some (.iterate (w.thread.frames.getD i default))
  | .beforeUnwind => some .beforeUnwind
  | .afterUnwind => some .afterUnwind
  | .judge i => some (.judge (w.thread.frames.getD i default))
  | .locate => some .locate

def perform (s : Sweep) (w : World Unit) (op : MinimalOp) : Reply × Sweep × World Unit :=
  match op, callOf w op with
  | .setEpoch e, _ => (.nothing, s, { w with epochs := .script [e] })
  | _, none => (.nothing, s, w)
  | _, some c =>
    let (o, s, w) := c.run host (turns w) s w
    (replyTo o, s, w)

def performAll (s : Sweep) (w : World Unit) : List MinimalOp → List MinimalView
  | [] => []
  | op :: ops =>
    let (r, s, w) := perform s w op
    ⟨r, lines w.log, s.layout w.thread.tid host.kind⟩ :: performAll s { w with log := [] } ops

end Minimal

/-- Carries out operations on a sweep of the minimal runtime. -/
def minimal (positions : List Position) (every : Nat) (epoch : Epoch) (ops : List MinimalOp) :
    List MinimalView :=
  let w := World.ofThread (Minimal.thread positions every) (.script [epoch]) ()
  Minimal.performAll (.settled epoch) w ops

end StackSweep.Simulation
