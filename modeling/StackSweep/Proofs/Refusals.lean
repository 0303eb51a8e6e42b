import StackSweep.Proofs.Passing

/-!
# How a pass ends

A pass goes on as long as the processor succeeds. The first visit that does not succeed is its last
one, and the pass ends as that visit did: with the same error, or by the same unwinding.
-/

namespace StackSweep

variable {ς ε : Type}

/-- From one log to the other the processor succeeded every time, or it did so until a visit had
this outcome, after which nothing but bookkeeping followed. -/
inductive Host.Ends (h : Host ς ε) (log : List Event) : Outcome ε Unit → List Event → Prop
  | thrived {vs log'} : Visited log vs log' → (∀ x ∈ vs, x.2 = .processed) →
      Ends h log (.ok ()) log'
  | refused {vs o log'} (v : Visit) (w : World ς) : Visited log vs w.log →
      (∀ x ∈ vs, x.2 = .processed) → (h.visit v w).1 = o → o ≠ .ok () →
      Visited (h.visit v w).2.log [] log' → Ends h log o log'

namespace Host.Ends

variable {h : Host ς ε} {o : Outcome ε Unit} {log log₁ log' log'' : List Event}
  {vs : List (Visit × Verdict)}

/-- Visits that succeeded may come before. -/
theorem after (ends : h.Ends log₁ o log') (seen : Visited log vs log₁)
    (all : ∀ x ∈ vs, x.2 = .processed) : h.Ends log o log' := by
  cases ends with
  | thrived seen' all' =>
    refine .thrived (seen.trans seen') ?_
    intro x hx
    exact (List.mem_append.1 hx).elim (all' x) (all x)
  | refused v w seen' all' ho refuses asides =>
    refine .refused v w (seen.trans seen') ?_ ho refuses asides
    intro x hx
    exact (List.mem_append.1 hx).elim (all' x) (all x)

/-- What is thriving goes on with whatever comes next. -/
theorem trans (ends : h.Ends log (.ok ()) log₁) (next : h.Ends log₁ o log') :
    h.Ends log o log' := by
  cases ends with
  | thrived seen all => exact next.after seen all
  | refused _ _ _ _ _ refuses _ => exact absurd rfl refuses

/-- Bookkeeping may come before and after. -/
theorem around (before : Visited log [] log₁) (ends : h.Ends log₁ o log')
    (asides : Visited log' [] log'') : h.Ends log o log'' := by
  refine Ends.after ?_ before nofun
  cases ends with
  | thrived seen all => exact .thrived (by simpa using seen.trans asides) all
  | refused v w seen all ho refuses seen' =>
    exact .refused v w seen all ho refuses (by simpa using seen'.trans asides)

/-- An outcome other than success is that of the last visit. -/
theorem last (ends : h.Ends log o log') (refuses : o ≠ .ok ()) :
    ∃ vs v w, Visited log vs w.log ∧ (∀ x ∈ vs, x.2 = .processed) ∧ (h.visit v w).1 = o ∧
      Visited (h.visit v w).2.log [] log' := by
  cases ends with
  | thrived => exact absurd rfl refuses
  | refused v w seen all ho _ asides => exact ⟨_, v, w, seen, all, ho, asides⟩

end Host.Ends

/-- A single visit. -/
theorem Host.ends_visit (h : Host ς ε) (v : Visit) (w : World ς) :
    h.Ends w.log (h.visit v w).1 (h.visit v w).2.log := by
  by_cases ok : (h.visit v w).1 = .ok ()
  · have seen := h.visited v w
    rw [ok] at seen ⊢
    exact .thrived seen (by simp)
  · exact .refused v w .refl nofun rfl ok .refl

namespace Walk

theorem stepFrames_ends (h : Host ς ε) (sh : Shared) (fs : List Frame) :
    ∀ (last : Position) (cursor : Nat) (w : World ς),
      h.Ends w.log (stepFrames h sh last cursor fs w).outcome
        (stepFrames h sh last cursor fs w).world.log := by
  induction fs with
  | nil => exact fun _ _ _ => .thrived .refl nofun
  | cons f rest ih =>
    intro last cursor w
    have visit := h.ends_visit ⟨f, cursor, sh.context, sh.published⟩ w
    unfold stepFrames
    split <;> rename_i w' eq <;> rw [eq] at visit
    · split
      · exact visit
      · exact visit.trans (ih f.position (cursor + 1) w')
    · exact visit
    · exact visit

theorem step_ends (h : Host ς ε) (sh : Shared) (k : Walk) (w : World ς) :
    h.Ends w.log (k.step h sh w).1 (k.step h sh w).2.2.log :=
  .around (Bracket.visited_enter w) (stepFrames_ends h sh k.ahead .none k.cursor _)
    (Bracket.visited_leave _ _)

/-- Steps in a row end with the first that does not succeed. -/
theorem steps_ends (h : Host ς ε) (sh : Shared) (n : Nat) : ∀ (k : Walk) (w : World ς),
    h.Ends w.log (steps h sh n k w).1 (steps h sh n k w).2.2.log := by
  induction n with
  | zero => exact fun _ _ => .thrived .refl nofun
  | succ n ih =>
    intro k w
    have step := k.step_ends h sh w
    unfold steps
    split <;> rename_i k' w' eq <;> rw [eq] at step
    · exact step.trans (ih k' w')
    · exact step
    · exact step

end Walk

end StackSweep
