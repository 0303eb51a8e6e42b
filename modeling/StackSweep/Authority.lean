import StackSweep.Outcome

/-!
# Epoch authorities

The authority names the current campaign of each kind; everything else only reads it. A counter
holds one epoch for each of the kinds it was made for and starts a campaign by counting on. Other
authorities hold plain cells, or follow a script that decides what each reading says.

`EpochCounter` is the counter of that name with `current`, `advance` and `advance_all`. `Authority`
stands for any `EpochSource`: `Authority.read` is `current_epoch`.
-/

namespace StackSweep

/-- One epoch for each kind, by kind number. -/
structure EpochCounter where
  epochs : List Epoch
deriving DecidableEq, Repr

namespace EpochCounter

/-- A counter for that many kinds, none of which has had a campaign. -/
def ofKinds (n : Nat) : EpochCounter := ⟨List.replicate n 0⟩

def kinds (c : EpochCounter) : List KindId :=
  (List.range c.epochs.length).map fun i => ⟨UInt8.ofNat i⟩

def current (c : EpochCounter) (k : KindId) : Except Fault Epoch :=
  match c.epochs[k.toNat]? with
  | some e => .ok e
  | none => .error (.unregistered k c.epochs.length)

/-- Starts a campaign of one kind. Answers its epoch. -/
def advance (c : EpochCounter) (k : KindId) : Except Fault Epoch × EpochCounter :=
  match c.epochs[k.toNat]? with
  | some e => (.ok e.next, ⟨c.epochs.set k.toNat e.next⟩)
  | none => (.error (.unregistered k c.epochs.length), c)

/-- Starts `n` campaigns of one kind after another. Answers the last epoch, if there is one. The
kind does not matter if there are no campaigns to start. -/
def advanceMany (c : EpochCounter) (k : KindId) : Nat → Except Fault (Option Epoch) × EpochCounter
  | 0 => (.ok none, c)
  | 1 => let (e, c) := c.advance k; (e.map some, c)
  | n + 1 => (c.advance k).2.advanceMany k n

/-- Starts a campaign of every kind, in the order of their numbers. -/
def advanceAll (c : EpochCounter) : EpochCounter :=
  c.kinds.foldl (fun c k => (c.advance k).2) c

def layout (c : EpochCounter) : Text.Layout :=
  .list (c.epochs.map fun e => .atom e.text)

@[simp] theorem length_advance (c : EpochCounter) (k : KindId) :
    (c.advance k).2.epochs.length = c.epochs.length := by
  unfold advance; split <;> simp

/-- Advancing one kind moves no other. -/
theorem current_advance_of_ne {c : EpochCounter} {k l : KindId} (h : k.toNat ≠ l.toNat) :
    (c.advance k).2.current l = c.current l := by
  unfold advance
  split
  · simp [current, h]
  · rfl

end EpochCounter

/-- Where epochs come from. -/
inductive Authority
  | counter (c : EpochCounter)
  /-- One plain word for each kind. -/
  | cells (epochs : List Epoch)
  /-- Every reading takes the next epoch, whatever the kind. The last one stays. -/
  | script (epochs : List Epoch)
deriving DecidableEq, Repr

namespace Authority

/-- Reads the current epoch of a kind. -/
def read? (a : Authority) (k : KindId) : Except Fault Epoch × Authority :=
  match a with
  | .counter c => (c.current k, a)
  | .cells es => (.ok (es.getD k.toNat 0), a)
  | .script [] => (.ok 0, a)
  | .script [e] => (.ok e, a)
  | .script (e :: es) => (.ok e, .script es)

/-- Reads the current epoch of a kind that the authority is known to count. -/
def read (a : Authority) (k : KindId) : Epoch × Authority :=
  match a.read? k with
  | (.ok e, a) => (e, a)
  | (.error _, a) => (0, a)

/-- Starts a campaign of one kind. Answers its epoch. Plain cells count on through all 32 bits,
and a script has none to start. -/
def advance (a : Authority) (k : KindId) : Except Fault Epoch × Authority :=
  match a with
  | .counter c => let (e, c) := c.advance k; (e, .counter c)
  | .cells es => (.ok (es.getD k.toNat 0 + 1), .cells (es.set k.toNat (es.getD k.toNat 0 + 1)))
  | .script _ => (.ok 0, a)

/-- Writes a plain cell. -/
def assign (a : Authority) (k : KindId) (e : Epoch) : Authority :=
  match a with
  | .cells es => .cells (es.set k.toNat e)
  | a => a

def isScript : Authority → Bool
  | .script _ => true
  | _ => false

end Authority

end StackSweep
