import Mathlib.Data.List.Induction
import StackSweep.Proofs.Exits
import StackSweep.Proofs.Sufficing

/-!
# Crossing barriers

A step goes up to the next frame that has a barrier, and a batch up to the one that fills its
interval. If the processor does its work, a batch hands out what that many steps hand out and
leaves the walk where they leave it. The two loops record the boundaries in different places, and
they differ on a stack that ends behind its last barrier or right at it. That a walk with no frame
left records nothing makes up for it.
-/

namespace StackSweep

variable {ς ε : Type} {barrier : Frame → Bool} {f g : Frame} {fs rest ys : List Frame} {m n : Nat}

/-! ## Frames up to a barrier -/

/-- The frames up to and including the `n`-th that has a barrier, or all of them. -/
def upTo (barrier : Frame → Bool) : Nat → List Frame → List Frame
  | n + 1, f :: rest => f :: upTo barrier (if barrier f then n else n + 1) rest
  | 0, _ => []
  | _ + 1, [] => []

/-- The frames behind the `n`-th that has a barrier. -/
def beyond (barrier : Frame → Bool) : Nat → List Frame → List Frame
  | n + 1, f :: rest => beyond barrier (if barrier f then n else n + 1) rest
  | 0, fs => fs
  | _ + 1, [] => []

@[simp] theorem upTo_zero (fs : List Frame) : upTo barrier 0 fs = [] := by
  cases fs <;> rfl

@[simp] theorem upTo_nil (n : Nat) : upTo barrier n [] = [] := by
  cases n <;> rfl

@[simp] theorem beyond_zero (fs : List Frame) : beyond barrier 0 fs = fs := by
  cases fs <;> rfl

@[simp] theorem beyond_nil (n : Nat) : beyond barrier n [] = [] := by
  cases n <;> rfl

theorem upTo_cons (barred : barrier f = true) (n : Nat) (rest : List Frame) :
    upTo barrier (n + 1) (f :: rest) = f :: upTo barrier n rest := by
  rw [upTo, if_pos barred]

theorem beyond_cons (barred : barrier f = true) (n : Nat) (rest : List Frame) :
    beyond barrier (n + 1) (f :: rest) = beyond barrier n rest := by
  rw [beyond, if_pos barred]

theorem upTo_cons_plain (plain : barrier f = false) (n : Nat) (rest : List Frame) :
    upTo barrier (n + 1) (f :: rest) = f :: upTo barrier (n + 1) rest := by
  rw [upTo, plain, if_neg Bool.false_ne_true]

theorem beyond_cons_plain (plain : barrier f = false) (n : Nat) (rest : List Frame) :
    beyond barrier (n + 1) (f :: rest) = beyond barrier (n + 1) rest := by
  rw [beyond, plain, if_neg Bool.false_ne_true]

theorem upTo_append_beyond (barrier : Frame → Bool) (fs : List Frame) :
    ∀ n : Nat, upTo barrier n fs ++ beyond barrier n fs = fs := by
  induction fs with
  | nil => simp
  | cons f rest ih =>
    intro n
    cases n with
    | zero => simp
    | succ n => simp only [upTo, beyond, List.cons_append, ih]

/-- To cross some barriers and then more is to cross them all. -/
theorem upTo_add (barrier : Frame → Bool) (n : Nat) (fs : List Frame) :
    ∀ m : Nat, upTo barrier (m + n) fs =
        upTo barrier m fs ++ upTo barrier n (beyond barrier m fs) ∧
      beyond barrier (m + n) fs = beyond barrier n (beyond barrier m fs) := by
  induction fs with
  | nil => simp
  | cons f rest ih =>
    intro m
    cases m with
    | zero => simp
    | succ m =>
      rw [Nat.add_right_comm]
      by_cases barred : barrier f = true
      · simp only [upTo_cons barred, beyond_cons barred, ih m, List.cons_append, and_self]
      · rw [Bool.not_eq_true] at barred
        have step := ih (m + 1)
        rw [Nat.add_right_comm] at step
        simp only [upTo_cons_plain barred, beyond_cons_plain barred, step, List.cons_append,
          and_self]

theorem countP_upTo (barrier : Frame → Bool) (fs : List Frame) :
    ∀ n : Nat, (upTo barrier n fs).countP barrier = min n (fs.countP barrier) := by
  induction fs with
  | nil => simp
  | cons f rest ih =>
    intro n
    cases n with
    | zero => simp
    | succ n =>
      by_cases barred : barrier f = true
      · rw [upTo_cons barred, List.countP_cons_of_pos barred, List.countP_cons_of_pos barred, ih]
        omega
      · rw [upTo_cons_plain (Bool.not_eq_true _ ▸ barred), List.countP_cons_of_neg barred,
          List.countP_cons_of_neg barred, ih]

theorem countP_beyond (barrier : Frame → Bool) (n : Nat) (fs : List Frame) :
    (beyond barrier n fs).countP barrier = fs.countP barrier - n := by
  have all : (upTo barrier n fs).countP barrier + (beyond barrier n fs).countP barrier =
      fs.countP barrier := by
    rw [← List.countP_append, upTo_append_beyond]
  rw [countP_upTo] at all
  omega

/-- `g` is the `n`-th frame with a barrier. It follows on `ys`. -/
structure IsNth (barrier : Frame → Bool) (n : Nat) (fs ys : List Frame) (g : Frame)
    (rest : List Frame) : Prop where
  split : fs = ys ++ g :: rest
  barred : barrier g = true
  count : ys.countP barrier + 1 = n

theorem exists_isNth (fs : List Frame) :
    ∀ {n : Nat}, 0 < n → n ≤ fs.countP barrier → ∃ ys g rest, IsNth barrier n fs ys g rest := by
  induction fs with
  | nil =>
    intro n pos le
    rw [List.countP_nil] at le
    omega
  | cons f rest ih =>
    intro n pos le
    by_cases barred : barrier f = true
    · rw [List.countP_cons_of_pos barred] at le
      by_cases first : n = 1
      · exact ⟨[], f, rest, rfl, barred, first.symm⟩
      · obtain ⟨ys, g, later, split, last, count⟩ := ih (n := n - 1) (by omega) (by omega)
        refine ⟨f :: ys, g, later, congrArg (f :: ·) split, last, ?_⟩
        rw [List.countP_cons_of_pos barred]
        omega
    · rw [List.countP_cons_of_neg barred] at le
      obtain ⟨ys, g, later, split, last, count⟩ := ih pos le
      exact ⟨f :: ys, g, later, congrArg (f :: ·) split, last,
        by rwa [List.countP_cons_of_neg barred]⟩

/-- Frames that are left lie behind `n` barriers. -/
theorem le_countP_of_left (fs : List Frame) :
    ∀ {n : Nat}, beyond barrier n fs ≠ [] → n ≤ fs.countP barrier := by
  induction fs with
  | nil => exact fun left => absurd (beyond_nil _) left
  | cons f rest ih =>
    intro n left
    cases n with
    | zero => exact Nat.zero_le _
    | succ n =>
      by_cases barred : barrier f = true
      · rw [beyond_cons barred] at left
        rw [List.countP_cons_of_pos barred]
        exact Nat.succ_le_succ (ih left)
      · rw [beyond_cons_plain (Bool.not_eq_true _ ▸ barred)] at left
        rw [List.countP_cons_of_neg barred]
        exact ih left

/-- The frames that are crossed end with the `n`-th barrier. -/
theorem IsNth.upTo_eq (nth : IsNth barrier n fs ys g rest) :
    upTo barrier n fs = ys ++ [g] ∧ beyond barrier n fs = rest := by
  obtain ⟨rfl, barred, rfl⟩ := nth
  induction ys with
  | nil => simp [upTo_cons barred, beyond_cons barred]
  | cons f ys ih =>
    by_cases first : barrier f = true
    · rw [List.countP_cons_of_pos first, List.cons_append, upTo_cons first, beyond_cons first,
        ih.1, ih.2]
      exact ⟨rfl, rfl⟩
    · have plain := Bool.not_eq_true _ ▸ first
      rw [List.countP_cons_of_neg first, List.cons_append, upTo_cons_plain plain,
        beyond_cons_plain plain, ih.1, ih.2]
      exact ⟨rfl, rfl⟩

/-! ## Boundaries of a walk -/

namespace Trail

/-- The trail after the positions of these frames have been recorded. -/
def through (t : Trail) (fs : List Frame) : Trail := fs.foldl (fun t f => t.record f.position) t

theorem through_append (t : Trail) (fs gs : List Frame) :
    t.through (fs ++ gs) = (t.through fs).through gs :=
  List.foldl_append

/-- Of the positions that an empty trail takes in, the last two stay. -/
theorem through_empty (fs : List Frame) : ∀ {f g : Frame},
    (∀ x ∈ fs ++ [f] ++ [g], 0 < x.position.addr) →
      empty.through (fs ++ [f] ++ [g]) = ⟨f.position, g.position⟩ := by
  induction fs using List.reverseRecOn with
  | nil =>
    intro f g pos
    exact record_single (Position.addr_pos_iff.1 (pos f (by simp)))
  | append_singleton fs e ih =>
    intro f g pos
    rw [through_append, ih fun x hx => pos x (List.mem_append_left _ hx)]
    exact record_full (Position.addr_pos_iff.1 (pos e (by simp)))
      (Position.addr_pos_iff.1 (pos f (by simp)))

end Trail

namespace Walk

variable {k : Walk}

@[simp] theorem ahead_ofFrames (fs : List Frame) : (ofFrames fs).ahead = fs := rfl

/-- A step passes the frames up to the next barrier. -/
theorem framesOver_eq (barrier : Frame → Bool) (fs : List Frame) :
    ∀ (last : Position) (cursor : Nat), framesOver barrier last cursor fs =
      (lastOf last (upTo barrier 1 fs), cursor + (upTo barrier 1 fs).length,
        beyond barrier 1 fs) := by
  induction fs with
  | nil => exact fun _ _ => rfl
  | cons f rest ih =>
    intro last cursor
    by_cases barred : barrier f = true
    · simp [framesOver, barred, upTo_cons, beyond_cons, lastOf]
    · have plain := Bool.not_eq_true _ ▸ barred
      rw [framesOver, plain, if_neg Bool.false_ne_true, ih, upTo_cons_plain plain,
        beyond_cons_plain plain, lastOf_cons, List.length_cons, Nat.add_assoc, Nat.add_comm 1]

theorem ahead_stepOver (barrier : Frame → Bool) (k : Walk) :
    (k.stepOver barrier).ahead = beyond barrier 1 k.ahead := by
  unfold stepOver
  rw [framesOver_eq]
  dsimp only
  split <;> simp

theorem cursor_stepOver (barrier : Frame → Bool) (k : Walk) :
    (k.stepOver barrier).cursor = k.cursor + (upTo barrier 1 k.ahead).length := by
  unfold stepOver
  rw [framesOver_eq]
  dsimp only
  split <;> simp

/-- A step that leaves frames records the position of the barrier that it has crossed. -/
theorem trail_stepOver (pos : ∀ f ∈ k.ahead, 0 < f.position.addr)
    (left : beyond barrier 1 k.ahead ≠ []) :
    (k.stepOver barrier).trail = k.trail.through ((upTo barrier 1 k.ahead).filter barrier) := by
  obtain ⟨passed, split, plain, stop⟩ := stepOver_passes barrier k pos
  rw [ahead_stepOver] at split stop
  obtain ⟨ys, g, rfl, barred, trail⟩ := stop left
  have same : upTo barrier 1 k.ahead = ys ++ [g] :=
    List.append_cancel_right ((upTo_append_beyond barrier k.ahead 1).trans split)
  have only : (ys ++ [g]).filter barrier = [g] := by
    rw [List.dropLast_concat] at plain
    rw [List.filter_append, List.filter_eq_nil_iff.2 (by simpa using plain),
      List.filter_cons_of_pos barred]
    rfl
  rw [trail, same, only]
  rfl

theorem ahead_iterate (barrier : Frame → Bool) (n : Nat) : ∀ k : Walk,
    ((stepOver barrier)^[n] k).ahead = beyond barrier n k.ahead := by
  induction n with
  | zero => simp
  | succ n ih =>
    intro k
    rw [Function.iterate_succ_apply, ih, ahead_stepOver, Nat.add_comm n,
      (upTo_add barrier n k.ahead 1).2]

/-- As long as frames are left, the boundaries of a walk are the barriers that it has crossed. -/
theorem trail_iterate (n : Nat) : ∀ {k : Walk}, (∀ f ∈ k.ahead, 0 < f.position.addr) →
    beyond barrier n k.ahead ≠ [] →
    ((stepOver barrier)^[n] k).trail =
      k.trail.through ((upTo barrier n k.ahead).filter barrier) := by
  induction n with
  | zero =>
    intro k _ _
    simp [Trail.through]
  | succ n ih =>
    intro k pos left
    obtain ⟨both, behind⟩ := upTo_add barrier n k.ahead 1
    rw [Nat.add_comm n, behind] at left
    have left₁ : beyond barrier 1 k.ahead ≠ [] := by
      intro none
      rw [none, beyond_nil] at left
      exact left rfl
    have pos₁ : ∀ f ∈ beyond barrier 1 k.ahead, 0 < f.position.addr := by
      intro f hf
      refine pos f ?_
      rw [← upTo_append_beyond barrier k.ahead 1]
      exact List.mem_append_right _ hf
    rw [← ahead_stepOver] at left pos₁
    rw [Function.iterate_succ_apply, ih pos₁ left, trail_stepOver pos left₁, ahead_stepOver,
      Nat.add_comm n, both, List.filter_append, Trail.through_append]

/-- From the innermost frame on, these are the last two barriers once two have been crossed. -/
theorem trail_ofFrames (pos : ∀ f ∈ fs, 0 < f.position.addr) (two : 2 ≤ n)
    (left : beyond barrier n fs ≠ []) :
    ∃ qs f g, (upTo barrier n fs).filter barrier = qs ++ [f] ++ [g] ∧
      ((stepOver barrier)^[n] (ofFrames fs)).trail = ⟨f.position, g.position⟩ := by
  have trail := trail_iterate n (k := ofFrames fs) pos left
  have count := countP_upTo barrier fs n
  have enough := le_countP_of_left fs left
  have found (f : Frame) (hf : f ∈ (upTo barrier n fs).filter barrier) : 0 < f.position.addr := by
    refine pos f ?_
    rw [← upTo_append_beyond barrier fs n]
    exact List.mem_append_left _ (List.mem_filter.1 hf).1
  rw [List.countP_eq_length_filter] at count
  change _ = Trail.empty.through ((upTo barrier n fs).filter barrier) at trail
  generalize (upTo barrier n fs).filter barrier = bs at trail count found
  rcases List.eq_nil_or_concat bs with rfl | ⟨ps, g, rfl⟩
  · rw [List.length_nil] at count
    omega
  · rcases List.eq_nil_or_concat ps with rfl | ⟨qs, f, rfl⟩
    · simp only [List.concat_eq_append, List.nil_append, List.length_singleton] at count
      omega
    · simp only [List.concat_eq_append] at trail found ⊢
      exact ⟨qs, f, g, rfl, trail.trans (Trail.through_empty qs found)⟩

/-- A walk with no frame left stays where it is. -/
theorem iterate_of_done (barrier : Frame → Bool) (cursor : Nat) (t : Trail) (n : Nat) :
    (stepOver barrier)^[n] ⟨cursor, [], t⟩ = ⟨cursor, [], t⟩ :=
  Function.iterate_fixed rfl n

theorem stepOver_cons (barred : barrier f = true) (found : 0 < f.position.addr) (cursor : Nat)
    (rest : List Frame) (t : Trail) :
    (Walk.mk cursor (f :: rest) t).stepOver barrier =
      (Walk.mk (cursor + 1) rest t).record f.position := by
  have there : f.position.isNone = false := by
    rw [Bool.eq_false_iff, Ne, Position.isNone_iff]
    exact Position.addr_pos_iff.1 found
  simp [stepOver, framesOver, barred, there]

/-- It does not matter to a step whether a frame without a barrier comes first. -/
theorem stepOver_cons_plain (plain : barrier f = false) (cursor : Nat) (rest : List Frame)
    (t : Trail) : (Walk.mk cursor (f :: rest) t).stepOver barrier =
      (Walk.mk (cursor + 1) rest t).stepOver barrier := by
  cases rest with
  | nil =>
    unfold stepOver
    simp only [framesOver, plain, Bool.false_eq_true, if_false]
    split
    · rfl
    · exact record_of_done rfl _
  | cons g rest => simp only [stepOver, framesOver, plain, Bool.false_eq_true, if_false]

end Walk

/-! ## Processors that do their work -/

/-- The processor succeeds on every frame. -/
def Host.Thrives (h : Host ς ε) : Prop := ∀ v w, (h.process v w).1 = .ok ()

/-- The processor leaves the thread's pending error as it is, and the ban on handles outside a scope
as well. -/
structure Host.IsDiscreet (h : Host ς ε) : Prop where
  pending : ∀ v w, (h.process v w).2.thread.pending = w.thread.pending
  suppressed : ∀ v w, (h.process v w).2.thread.suppressed = w.thread.suppressed

theorem Outcome.verdict_of_map_ok {α : Type} {o : Outcome ε α}
    (ok : (o.map fun _ => ()) = .ok ()) : o.verdict = .processed := by
  cases o with
  | ok _ => rfl
  | failed e => cases ok
  | unwound x => cases ok

theorem Host.Ends.ok_of_thrives {h : Host ς ε} {o : Outcome ε Unit} {log log' : List Event}
    (ends : h.Ends log o log') (thrives : h.Thrives) : o = .ok () := by
  cases ends with
  | thrived => rfl
  | refused v w _ _ ho => exact ho.symm.trans (thrives v _)

/-- The worlds differ in nothing but their logs. -/
def World.Matches (w w' : World ς) : Prop := ∃ log, w' = { w with log := log }

namespace World.Matches

variable {w w₁ w' : World ς}

theorem trans (like : w.Matches w₁) (like' : w₁.Matches w') : w.Matches w' := by
  obtain ⟨log, rfl⟩ := like
  obtain ⟨log', rfl⟩ := like'
  exact ⟨log', rfl⟩

theorem leave (like : w.Matches w') (b : Bracket) : (b.leave w).Matches (b.leave w') := by
  obtain ⟨log, rfl⟩ := like
  exact ⟨_, rfl⟩

/-- A bracket that closes and opens again at once changes nothing that is open. -/
theorem reopen (pending : w.thread.pending = none) (suppressed : w.thread.suppressed = true)
    (b : Bracket) : (Bracket.enter (b.leave w)).1 = b ∧
      w.Matches (Bracket.enter (b.leave w)).2 := by
  refine ⟨rfl, (Bracket.enter (b.leave w)).2.log, ?_⟩
  obtain ⟨⟨tid, stack, walkable, walks, _, handles, resources, _, traced⟩, epochs, sweeps, held,
    log, rest⟩ := w
  cases pending
  cases suppressed
  simp only [Bracket.enter, Bracket.leave, recordAll, setThread, Int.sub_add_cancel]

end World.Matches

namespace Walk

section handed

variable {h : Host ς ε}

/-- The world after these frames have been handed to the processor. -/
def handOut (h : Host ς ε) (sh : Shared) : Nat → List Frame → World ς → World ς
  | _, [], w => w
  | cursor, f :: rest, w => handOut h sh (cursor + 1) rest (h.visit (sh.visit cursor f) w).2

theorem handOut_append (h : Host ς ε) (sh : Shared) (gs : List Frame) (fs : List Frame) :
    ∀ (cursor : Nat) (w : World ς), handOut h sh cursor (fs ++ gs) w =
      handOut h sh (cursor + fs.length) gs (handOut h sh cursor fs w) := by
  induction fs with
  | nil => exact fun _ _ => rfl
  | cons f fs ih =>
    intro cursor w
    rw [List.cons_append, handOut, handOut, ih, List.length_cons, Nat.add_assoc, Nat.add_comm 1]

theorem visited_handOut (thrives : h.Thrives) (sh : Shared) (fs : List Frame) :
    ∀ (cursor : Nat) (w : World ς),
      Visited w.log (sh.visits cursor fs) (handOut h sh cursor fs w).log := by
  induction fs with
  | nil => exact fun _ _ => .refl
  | cons f fs ih =>
    intro cursor w
    have seen := h.visited (sh.visit cursor f) w
    rw [show (h.visit (sh.visit cursor f) w).1 = .ok () from thrives _ _] at seen
    exact seen.trans (ih (cursor + 1) _)

theorem handOut_matches (h : Host ς ε) (sh : Shared) (fs : List Frame) :
    ∀ (cursor : Nat) {w w' : World ς}, w.Matches w' →
      (handOut h sh cursor fs w).Matches (handOut h sh cursor fs w') := by
  induction fs with
  | nil => exact fun _ _ _ like => like
  | cons f fs ih =>
    intro cursor w w' like
    refine ih (cursor + 1) ?_
    obtain ⟨log, rfl⟩ := like
    exact ⟨_, rfl⟩

theorem handOut_isDiscreet (discreet : h.IsDiscreet) (sh : Shared) (fs : List Frame) :
    ∀ (cursor : Nat) (w : World ς),
      (handOut h sh cursor fs w).thread.pending = w.thread.pending ∧
        (handOut h sh cursor fs w).thread.suppressed = w.thread.suppressed := by
  induction fs with
  | nil => exact fun _ _ => ⟨rfl, rfl⟩
  | cons f fs ih =>
    intro cursor w
    obtain ⟨pending, suppressed⟩ := ih (cursor + 1) (h.visit (sh.visit cursor f) w).2
    exact ⟨pending.trans (discreet.pending _ _), suppressed.trans (discreet.suppressed _ _)⟩

end handed

section succeeds

variable {h : Host ς ε} {k : Walk} (fixed : ∀ f w, h.hasBarrier f w = barrier f) (sh : Shared)

include fixed

/-- Over frames that rise, a batch that succeeds hands out those up to the barrier that fills its
interval, and it goes as far as as many steps. -/
theorem batchFrames_of_ok (interval : Nat) (fs : List Frame) :
    ∀ (m seen cursor : Nat) (t : Trail) (w : World ς), interval = seen + (m + 1) →
      (Walk.mk cursor fs t).IsSteady →
      (batchFrames h sh interval seen cursor t fs w).1.verdict = .processed →
      batchFrames h sh interval seen cursor t fs w =
        (.ok (if m + 1 ≤ fs.countP barrier then .interval else .exhausted),
          (stepOver barrier)^[m + 1] ⟨cursor, fs, t⟩,
          handOut h sh cursor (upTo barrier (m + 1) fs) w) := by
  induction fs with
  | nil =>
    intro m seen cursor t w _ _ _
    rw [iterate_of_done]
    rfl
  | cons f rest ih =>
    intro m seen cursor t w count steady ok
    have outside : f.position.isInner t.leading = false := by
      rw [Bool.eq_false_iff, Ne, Position.isInner_iff]
      exact Nat.not_lt.2 (steady.clear f List.mem_cons_self)
    have advanced : (Walk.mk (cursor + 1) rest t).IsSteady :=
      ⟨steady.rising.of_suffix (List.suffix_cons _ _),
        fun g hg => steady.clear g (List.mem_cons_of_mem _ hg)⟩
    unfold batchFrames at ok ⊢
    simp only [outside, Bool.false_eq_true, if_false] at ok ⊢
    generalize visit : h.visit ⟨f, cursor, sh.context, sh.published⟩ w = r at ok ⊢
    obtain ⟨o, w'⟩ := r
    cases o with
    | failed e => cases ok
    | unwound x => cases ok
    | ok _ =>
      have next : (h.visit (sh.visit cursor f) w).2 = w' := congrArg Prod.snd visit
      dsimp only at ok ⊢
      rw [fixed] at ok ⊢
      by_cases barred : barrier f = true
      · have recorded := advanced.record (List.pairwise_cons.1 steady.rising.2).1
        rw [← mk_trail_record] at recorded
        rw [if_pos barred] at ok ⊢
        rw [upTo_cons barred, List.countP_cons_of_pos barred, Function.iterate_succ_apply,
          stepOver_cons barred (steady.rising.1 f List.mem_cons_self), handOut, next]
        cases m with
        | zero =>
          rw [if_pos count.symm, if_pos (by omega), upTo_zero]
          rfl
        | succ m =>
          rw [if_neg (by omega)] at ok ⊢
          rw [ih m (seen + 1) (cursor + 1) _ _ (by omega) recorded ok, mk_trail_record]
          simp only [Nat.add_le_add_iff_right]
      · rw [if_neg barred] at ok ⊢
        rw [upTo_cons_plain (Bool.not_eq_true _ ▸ barred), List.countP_cons_of_neg barred,
          ih m seen (cursor + 1) t _ count advanced ok, Function.iterate_succ_apply,
          Function.iterate_succ_apply, stepOver_cons_plain (Bool.not_eq_true _ ▸ barred), handOut,
          next]

theorem batch_of_ok {interval : Nat} (pos : 0 < interval) (steady : k.IsSteady) {w : World ς}
    (ok : (k.batch h sh interval w).1.verdict = .processed) :
    k.batch h sh interval w =
      (.ok (if interval ≤ k.ahead.countP barrier then .interval else .exhausted),
        (stepOver barrier)^[interval] k, (Bracket.enter w).1.leave
          (handOut h sh k.cursor (upTo barrier interval k.ahead) (Bracket.enter w).2)) := by
  obtain ⟨m, rfl⟩ : ∃ m, interval = m + 1 := ⟨interval - 1, by omega⟩
  unfold batch at ok ⊢
  simp only [batchFrames_of_ok fixed sh (m + 1) k.ahead m 0 k.cursor k.trail (Bracket.enter w).2
    (by omega) steady ok]

end succeeds

section thrives

variable {h : Host ς ε} {k : Walk} (fixed : ∀ f w, h.hasBarrier f w = barrier f)
  (thrives : h.Thrives) (sh : Shared)

include fixed thrives

theorem stepFrames_of_thrives (fs : List Frame) : ∀ (last : Position) (cursor : Nat) (w : World ς),
    (stepFrames h sh last cursor fs w).outcome = .ok () ∧
      (stepFrames h sh last cursor fs w).world = handOut h sh cursor (upTo barrier 1 fs) w := by
  induction fs with
  | nil => exact fun _ _ _ => ⟨rfl, rfl⟩
  | cons f rest ih =>
    intro last cursor w
    rw [stepFrames_of_processed (thrives _ _), fixed]
    by_cases barred : barrier f = true
    · rw [if_pos barred, upTo_cons barred, upTo_zero]
      exact ⟨rfl, rfl⟩
    · rw [if_neg barred, upTo_cons_plain (Bool.not_eq_true _ ▸ barred)]
      exact ih f.position (cursor + 1) _

/-- A step hands out the frames up to the next barrier. -/
theorem step_of_thrives (k : Walk) (w : World ς) :
    k.step h sh w = (.ok (), k.stepOver barrier, (Bracket.enter w).1.leave
      (handOut h sh k.cursor (upTo barrier 1 k.ahead) (Bracket.enter w).2)) := by
  obtain ⟨ok, world⟩ :=
    stepFrames_of_thrives fixed thrives sh k.ahead .none k.cursor (Bracket.enter w).2
  have ok' : (k.step h sh w).1 = .ok () := ok
  refine Prod.ext ok' (Prod.ext (step_of_ok fixed sh k w ok') ?_)
  exact congrArg (Bracket.enter w).1.leave world

/-- Steps in a row hand out the frames up to the barrier that they reach. -/
theorem steps_of_thrives (n : Nat) : ∀ (k : Walk) (w : World ς),
    (steps h sh n k w).1 = .ok () ∧ (steps h sh n k w).2.1 = (stepOver barrier)^[n] k ∧
      Visited w.log (sh.visits k.cursor (upTo barrier n k.ahead)) (steps h sh n k w).2.2.log ∧
      (h.IsDiscreet → ((Bracket.enter w).1.leave
        (handOut h sh k.cursor (upTo barrier n k.ahead) (Bracket.enter w).2)).Matches
          (steps h sh n k w).2.2) := by
  induction n with
  | zero =>
    intro k w
    rw [upTo_zero]
    exact ⟨rfl, rfl, .refl, fun _ => ⟨w.log, (Bracket.leave_enter w).symm⟩⟩
  | succ n ih =>
    intro k w
    have step := step_of_thrives fixed thrives sh k w
    have seen := visited_handOut thrives sh (upTo barrier 1 k.ahead) k.cursor (Bracket.enter w).2
    have kept := fun discreet => handOut_isDiscreet (h := h) discreet sh
      (upTo barrier 1 k.ahead) k.cursor (Bracket.enter w).2
    have both := (upTo_add barrier n k.ahead 1).1
    generalize hu : handOut h sh k.cursor (upTo barrier 1 k.ahead) (Bracket.enter w).2 = u
      at step seen kept
    obtain ⟨ok, walk, seen', matches'⟩ := ih (k.stepOver barrier) ((Bracket.enter w).1.leave u)
    rw [ahead_stepOver, cursor_stepOver] at seen' matches'
    unfold steps
    simp only [step]
    rw [Nat.add_comm n, both, Shared.visits_append, handOut_append, hu, Nat.add_comm 1]
    refine ⟨ok, walk, ?_, ?_⟩
    · exact (Bracket.visited_around seen).trans seen'
    · intro discreet
      obtain ⟨same, like⟩ := World.Matches.reopen (kept discreet).1 (kept discreet).2
        (Bracket.enter w).1
      have rest := matches' discreet
      rw [same] at rest
      exact ((handOut_matches h sh _ _ like).leave _).trans rest

theorem batch_of_thrives {interval : Nat} (pos : 0 < interval) (steady : k.IsSteady)
    (w : World ς) : k.batch h sh interval w =
      (.ok (if interval ≤ k.ahead.countP barrier then .interval else .exhausted),
        (stepOver barrier)^[interval] k, (Bracket.enter w).1.leave
          (handOut h sh k.cursor (upTo barrier interval k.ahead) (Bracket.enter w).2)) := by
  have ok := (batch_isSteady sh interval steady w).1.ok_of_thrives thrives
  exact batch_of_ok fixed sh pos steady (Outcome.verdict_of_map_ok ok)

theorem batch_visited {interval : Nat} (pos : 0 < interval) (steady : k.IsSteady) (w : World ς) :
    Visited w.log (sh.visits k.cursor (upTo barrier interval k.ahead))
      (k.batch h sh interval w).2.2.log := by
  rw [batch_of_thrives fixed thrives sh pos steady]
  exact Bracket.visited_around
    (visited_handOut thrives sh (upTo barrier interval k.ahead) k.cursor (Bracket.enter w).2)

end thrives

/-- On a walk over rising positions, none of them inside the leading boundary, and with a processor
that does its work, a batch with interval `n` makes the visits of `n` steps, in the same order, and
leaves the walk as they do. It ends with a full interval exactly if it has processed `n` frames with
a barrier, be the last of them the outermost frame or not, and otherwise no frame is left. If the
processor leaves the pending error and the ban on handles alone, the worlds are the same in the end
but for their logs. -/
theorem batch_eq_steps {h : Host ς ε} {k : Walk} (fixed : ∀ f w, h.hasBarrier f w = barrier f)
    (thrives : h.Thrives) (sh : Shared) (pos : 0 < n) (steady : k.IsSteady) (w : World ς) :
    ∃ vs, Visited w.log vs (k.batch h sh n w).2.2.log ∧
      Visited w.log vs (steps h sh n k w).2.2.log ∧ (∀ x ∈ vs, x.2 = .processed) ∧
      (steps h sh n k w).1 = .ok () ∧ (k.batch h sh n w).2.1 = (steps h sh n k w).2.1 ∧
      ((k.batch h sh n w).1 = .ok .interval ∧ (processedIn vs).countP barrier = n ∨
        (k.batch h sh n w).1 = .ok .exhausted ∧ (processedIn vs).countP barrier < n ∧
          (k.batch h sh n w).2.1.ahead = []) ∧
      (h.IsDiscreet → (k.batch h sh n w).2.2.Matches (steps h sh n k w).2.2) := by
  obtain ⟨ok, walk, seen, like⟩ := steps_of_thrives fixed thrives sh n k w
  have count := countP_upTo barrier k.ahead n
  have seen' := batch_visited fixed thrives sh pos steady w
  rw [batch_of_thrives fixed thrives sh pos steady w] at seen' ⊢
  refine ⟨sh.visits k.cursor (upTo barrier n k.ahead), seen', seen,
    fun _ hx => Shared.processed_of_mem_visits hx, ok, walk.symm, ?_, like⟩
  rw [processedIn_visits, count]
  by_cases full : n ≤ k.ahead.countP barrier
  · rw [if_pos full]
    exact .inl ⟨rfl, by omega⟩
  · rw [if_neg full, ahead_iterate]
    have none : beyond barrier n k.ahead = [] := by
      by_contra left
      exact full (le_countP_of_left _ left)
    exact .inr ⟨rfl, by omega, none⟩

/-- A batch of three over three frames, all with barriers, fills its interval at the outermost one.
-/
theorem batch_eq_steps_of_diligent :
    ((ofFrames (Site.fourFrames.take 3)).batch Site.diligent ⟨none, .settled 0⟩ 3
        Site.fresh.world).1 = .ok .interval ∧
      ((ofFrames (Site.fourFrames.take 3)).batch Site.diligent ⟨none, .settled 0⟩ 3
        Site.fresh.world).2.1.ahead = [] ∧
      ((ofFrames (Site.fourFrames.take 3)).batch Site.diligent ⟨none, .settled 0⟩ 3
        Site.fresh.world).2.1 =
          (steps Site.diligent ⟨none, .settled 0⟩ 3 (ofFrames (Site.fourFrames.take 3))
            Site.fresh.world).2.1 := by
  have fixed : ∀ f (w : World Bool), Site.diligent.hasBarrier f w = Frame.barrier f :=
    fun _ _ => rfl
  obtain ⟨vs, -, -, -, -, same, ends, -⟩ := batch_eq_steps (k := ofFrames (Site.fourFrames.take 3))
    (n := 3) fixed (fun _ _ => rfl) ⟨none, .settled 0⟩ (by decide) (isSteady_ofFrames (by decide))
    Site.fresh.world
  rcases ends with ⟨full, -⟩ | ⟨short, -⟩
  · exact ⟨full, by decide +kernel, same⟩
  · exact absurd short (by decide +kernel)

end Walk

end StackSweep
