import StackSweep.Campaign

/-!
# Epochs over time

What a sweep knows of its authority is the list of epochs that it has read, here latest first. An
authority that never returns to an epoch it has left shows in that list: whatever is read is either
what was read just before or something new. Epochs count as equal if they agree bit 31 aside, since
a progress word does not keep more.
-/

namespace StackSweep

namespace Epoch

/-- The epoch is among the ones read. -/
def WasRead (e : Epoch) (readings : List Epoch) : Prop :=
  ∃ d ∈ readings, d.significant = e.significant

/-- The epoch has been read, and since then another one. -/
def IsPast (e : Epoch) (readings : List Epoch) : Prop :=
  e.WasRead readings ∧ ∀ d ∈ readings.head?, d.significant ≠ e.significant

/-- The epoch has been read, and at no time without the other one having been read too. -/
def NotBefore (e d : Epoch) (readings : List Epoch) : Prop :=
  e.WasRead readings ∧ ∀ earlier, earlier <:+ readings → e.WasRead earlier → d.WasRead earlier

/-- Each reading, of a list with the latest first, repeats the one before it or is new. -/
def NeverReturn : List Epoch → Prop
  | [] => True
  | e :: earlier =>
    (e.WasRead earlier → ∃ d ∈ earlier.head?, d.significant = e.significant) ∧ NeverReturn earlier

instance (e : Epoch) (rs : List Epoch) : Decidable (e.WasRead rs) :=
  inferInstanceAs (Decidable (∃ d ∈ rs, d.significant = e.significant))

instance decidableNeverReturn : DecidablePred NeverReturn
  | [] => .isTrue trivial
  | e :: earlier =>
    have := decidableNeverReturn earlier
    inferInstanceAs (Decidable ((e.WasRead earlier → ∃ d ∈ earlier.head?,
      d.significant = e.significant) ∧ NeverReturn earlier))

theorem wasRead_cons {e r : Epoch} {rs : List Epoch} :
    e.WasRead (r :: rs) ↔ r.significant = e.significant ∨ e.WasRead rs := by
  simp [WasRead]

theorem wasRead_self (e : Epoch) (rs : List Epoch) : e.WasRead (e :: rs) :=
  wasRead_cons.2 (.inl rfl)

theorem WasRead.cons {e : Epoch} {rs : List Epoch} (h : e.WasRead rs) (r : Epoch) :
    e.WasRead (r :: rs) :=
  wasRead_cons.2 (.inr h)

theorem WasRead.congr {e d : Epoch} {rs : List Epoch} (h : e.WasRead rs)
    (same : e.significant = d.significant) : d.WasRead rs := by
  obtain ⟨c, hc, hs⟩ := h
  exact ⟨c, hc, hs.trans same⟩

theorem WasRead.of_suffix {e : Epoch} {rs rs' : List Epoch} (h : e.WasRead rs)
    (suffix : rs <:+ rs') : e.WasRead rs' := by
  obtain ⟨d, hd, same⟩ := h
  exact ⟨d, suffix.subset hd, same⟩

/-- Reading another epoch makes one that has been read a thing of the past. -/
theorem WasRead.isPast {e r : Epoch} {rs : List Epoch} (h : e.WasRead rs)
    (other : r.significant ≠ e.significant) : e.IsPast (r :: rs) :=
  ⟨h.cons r, fun d hd => by cases hd; exact other⟩

theorem NeverReturn.tail {r : Epoch} {rs : List Epoch} (h : NeverReturn (r :: rs)) :
    NeverReturn rs :=
  h.2

theorem NeverReturn.of_suffix {rs rs' : List Epoch} (h : NeverReturn rs') (suffix : rs <:+ rs') :
    NeverReturn rs := by
  obtain ⟨es, rfl⟩ := suffix
  induction es with
  | nil => exact h
  | cons e es ih => exact ih h.tail

/-- An epoch of the past is not read again. -/
theorem IsPast.ne_of_neverReturn {e r : Epoch} {rs : List Epoch} (h : e.IsPast rs)
    (nr : NeverReturn (r :: rs)) : r.significant ≠ e.significant := by
  intro same
  obtain ⟨d, hd, hs⟩ := nr.1 (h.1.congr same.symm)
  exact h.2 d hd (hs.trans same)

/-- What is past stays past. -/
theorem IsPast.cons {e r : Epoch} {rs : List Epoch} (h : e.IsPast rs)
    (nr : NeverReturn (r :: rs)) : e.IsPast (r :: rs) :=
  h.1.isPast (h.ne_of_neverReturn nr)

/-! ## The order of epochs -/

theorem NotBefore.refl {e : Epoch} {rs : List Epoch} (h : e.WasRead rs) : e.NotBefore e rs :=
  ⟨h, fun _ _ read => read⟩

theorem NotBefore.wasRead {e d : Epoch} {rs : List Epoch} (h : e.NotBefore d rs) : d.WasRead rs :=
  h.2 rs (List.suffix_refl rs) h.1

theorem NotBefore.congr {e e' d : Epoch} {rs : List Epoch} (h : e.NotBefore d rs)
    (same : e.significant = e'.significant) : e'.NotBefore d rs :=
  ⟨h.1.congr same, fun ys suffix read => h.2 ys suffix (read.congr same.symm)⟩

/-- Readings to come do not change the order of those that have been taken. -/
theorem NotBefore.cons {e d : Epoch} {rs : List Epoch} (h : e.NotBefore d rs) (r : Epoch) :
    e.NotBefore d (r :: rs) := by
  refine ⟨h.1.cons r, ?_⟩
  intro ys suffix read
  rcases List.suffix_cons_iff.1 suffix with rfl | suffix
  · exact h.wasRead.cons r
  · exact h.2 ys suffix read

/-- The latest reading is not before any other. -/
theorem notBefore_head {d : Epoch} {rs : List Epoch} :
    ∀ {e : Epoch}, NeverReturn (e :: rs) → d.WasRead (e :: rs) → e.NotBefore d (e :: rs) := by
  induction rs with
  | nil =>
    intro e _ read
    refine ⟨wasRead_self e [], ?_⟩
    intro ys suffix he
    rcases List.suffix_cons_iff.1 suffix with rfl | suffix
    · exact read
    · rw [List.suffix_nil.1 suffix] at he
      obtain ⟨c, hc, -⟩ := he
      cases hc
  | cons r rs ih =>
    intro e nr read
    refine ⟨wasRead_self e _, ?_⟩
    intro ys suffix he
    rcases List.suffix_cons_iff.1 suffix with rfl | suffix
    · exact read
    · -- The epoch has been read before, so that the reading before this one is the same.
      obtain ⟨c, hc, same⟩ := nr.1 (he.of_suffix suffix)
      cases hc
      rcases wasRead_cons.1 read with own | before
      · exact he.congr own
      · exact (ih nr.tail before).2 ys suffix (he.congr same.symm)

end Epoch

end StackSweep
