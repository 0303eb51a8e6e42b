import StackSweep.Text.Layout

/-!
# Campaigns

A campaign processes every stack once for one kind of work. Each kind counts its campaigns with
epochs. How far a stack has come is published as one word, which packs an epoch and a done bit, so
that a reader always sees the two together.

`ProgressWord` is `WatermarkState`, which packs and unpacks in the same way, and `phase` gives its
`Phase`. `Epoch.significant` is the reduction by `EPOCH_MASK`.
-/

namespace StackSweep

/-- Names a kind of campaign. -/
structure KindId where
  index : UInt8
deriving DecidableEq, Inhabited, Repr

namespace KindId

def toNat (k : KindId) : Nat := k.index.toNat

/-- The number of the kind, as it stands in messages. -/
def text (k : KindId) : String := Text.decimal k.toNat

def report (k : KindId) : String := "KindId(" ++ k.text ++ ")"

/-- Kinds are ordered by their numbers. -/
def order (k l : KindId) : Ordering := compare k.toNat l.toNat

/-- The later of two kinds. -/
def latest (k l : KindId) : KindId := if l.index ≤ k.index then k else l

end KindId

/-- The number of a campaign. Only the low 31 bits tell campaigns apart. -/
abbrev Epoch := UInt32

namespace Epoch

/-- How many bits of an epoch are significant. -/
def bits : Nat := 31

/-- How many campaigns can be told apart. -/
def count : UInt32 := 2147483648

/-- The greatest significant epoch. -/
def last : Epoch := count - 1

/-- The significant part of an epoch. -/
def significant (e : Epoch) : Epoch := e % count

/-- The epoch of the following campaign. -/
def next (e : Epoch) : Epoch := significant (e + 1)

def text (e : Epoch) : String := Text.decimal e.toNat

end Epoch

/-- Where a stack stands in the current campaign. -/
inductive Phase
  /-- Nothing has been processed for this campaign. -/
  | stale
  /-- Frames inside the boundary are processed. -/
  | inProgress
  /-- Every frame is processed. -/
  | done
deriving DecidableEq, Repr

def Phase.name : Phase → String
  | .stale => "Stale"
  | .inProgress => "InProgress"
  | .done => "Done"

/-- An epoch and a done bit in one word, the done bit lowest. -/
structure ProgressWord where
  raw : UInt32
deriving DecidableEq, Inhabited, Repr

namespace ProgressWord

def pack (e : Epoch) (done : Bool) : ProgressWord :=
  ⟨e.significant * 2 + if done then 1 else 0⟩

def epoch (w : ProgressWord) : Epoch := w.raw / 2

def isDone (w : ProgressWord) : Bool := w.raw % 2 == 1

/-- The word speaks of the campaign with this epoch. -/
def isOf (w : ProgressWord) (e : Epoch) : Bool := w.epoch == e.significant

/-- What the word says while `current` is the running campaign. -/
def phase (w : ProgressWord) (current : Epoch) : Phase :=
  if !w.isOf current then .stale else if w.isDone then .done else .inProgress

def layout (w : ProgressWord) : Text.Layout :=
  .record "WatermarkState" [("epoch", .atom w.epoch.text), ("is_done", .truth w.isDone)]

theorem toNat_significant (e : Epoch) : e.significant.toNat = e.toNat % 2147483648 := by
  simp [Epoch.significant, Epoch.count, UInt32.toNat_mod]

theorem toNat_raw_pack (e : Epoch) (done : Bool) :
    (pack e done).raw.toNat = e.toNat % 2147483648 * 2 + done.toNat := by
  cases done <;> simp [pack, UInt32.toNat_add, UInt32.toNat_mul, toNat_significant] <;> omega

@[simp] theorem epoch_pack (e : Epoch) (done : Bool) : (pack e done).epoch = e.significant := by
  apply UInt32.toNat_inj.mp
  rw [epoch, UInt32.toNat_div, toNat_raw_pack, toNat_significant]
  cases done <;> simp; omega

@[simp] theorem isDone_pack (e : Epoch) (done : Bool) : (pack e done).isDone = done := by
  have h := toNat_raw_pack e done
  have : (pack e done).raw % 2 = if done then 1 else 0 := by
    apply UInt32.toNat_inj.mp
    rw [UInt32.toNat_mod, h]
    cases done <;> simp
  rw [isDone, this]
  cases done <;> rfl

/-- A word speaks of a campaign exactly if it was packed with the same epoch, bit 31 aside. -/
theorem isOf_pack {e current : Epoch} {done : Bool} :
    (pack e done).isOf current = true ↔ e.significant = current.significant := by
  simp [isOf]

theorem phase_pack (e : Epoch) (done : Bool) :
    (pack e done).phase e = if done then .done else .inProgress := by
  simp [phase, isOf]

end ProgressWord

end StackSweep
