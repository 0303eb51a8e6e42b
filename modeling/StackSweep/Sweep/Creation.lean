import StackSweep.World

/-!
# Making a sweep

A new sweep has nothing left to do for the campaign that is current when it is made. Its pacing is
checked before anything else.

`create` is `with_config`, and `new` where the pacing is the default.
-/

namespace StackSweep.Sweep

variable {ς : Type}

/-- Makes a sweep, unless the pacing is refused or the authority does not count the kind. -/
def create (k : KindId) (p : Pacing) (w : World ς) : Outcome PacingError Sweep × World ς :=
  match p.check with
  | .error e => (.failed e, w)
  | .ok () =>
    match w.epochs.read? k with
    | (.ok e, a) => (.ok (settled e), { w with epochs := a, log := .epochRead k e :: w.log })
    | (.error x, a) => (.unwound x, { w with epochs := a })

/-- A refused pacing is all that it takes: no epoch is read. -/
theorem create_of_refused {k : KindId} {p : Pacing} {e : PacingError} (h : p.check = .error e)
    (w : World ς) : create k p w = (.failed e, w) := by
  simp [create, h]

/-- The pacing of a sweep that could be made is valid. -/
theorem valid_of_create {k : KindId} {p : Pacing} {s : Sweep} {w w' : World ς}
    (h : create k p w = (.ok s, w')) : p.Valid := by
  rw [← Pacing.check_eq_ok_iff]
  unfold create at h
  split at h
  · cases h
  · assumption

end StackSweep.Sweep
