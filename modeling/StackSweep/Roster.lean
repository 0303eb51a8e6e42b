import StackSweep.Errand

/-!
# Rosters

The sweeps of one thread, at most one of each kind. A hook of the runtime is broadcast to all of
them in the order in which they were installed.

`Roster` is `WatermarkSet`: `find?` and `get` are `get` and `installed`, `install` is `insert`,
`lowestBoundary` is `lowest_watermark`, and `broadcast` is the hooks.
-/

namespace StackSweep

structure Roster where
  /-- The kinds in order of installation, each with its sweep. -/
  members : List (KindId × Nat)
deriving DecidableEq, Inhabited, Repr

namespace Roster

variable {ς : Type}

def size (r : Roster) : Nat := r.members.length

def kinds (r : Roster) : List KindId := r.members.map (·.1)

def sweeps (r : Roster) : List Nat := r.members.map (·.2)

/-- The sweep of a kind. -/
def find? (r : Roster) (k : KindId) : Option Nat := r.members.lookup k

/-- The sweep of a kind that has to be there. -/
def get (r : Roster) (k : KindId) : Except Fault Nat :=
  match r.find? k with
  | some i => .ok i
  | none => .error (.notInstalled k)

/-- Installs a sweep of a kind that is not there yet. -/
def install (r : Roster) (tid : Nat) (k : KindId) (i : Nat) : Except Fault Roster :=
  if (r.find? k).isSome then .error (.alreadyInstalled k tid) else .ok ⟨r.members ++ [(k, i)]⟩

/-- What the sweeps have published, in order of installation. -/
def published (r : Roster) (w : World ς) : List Published :=
  r.sweeps.map fun i => (w.sweeps.getD i default).published

/-- The innermost boundary over all kinds that have published one. -/
def lowestBoundary (r : Roster) (w : World ς) : Position :=
  Published.lowestBoundary (r.published w)

/-- The same call on every sweep. -/
def broadcast (r : Roster) (c : Call) : Errand := .broadcast r.sweeps c

def layout (r : Roster) (tid : Nat) (w : World ς) : Text.Layout :=
  .record "WatermarkSet"
    [("watermarks", .list (r.members.map fun (k, i) => (w.sweeps.getD i default).layout tid k))]

theorem kinds_install {r r' : Roster} {tid : Nat} {k : KindId} {i : Nat}
    (h : r.install tid k i = .ok r') : r'.kinds = r.kinds ++ [k] := by
  unfold install at h
  split at h
  · cases h
  · cases h; simp [kinds]

end Roster

end StackSweep
