import StackSweep.Walk.Pass
import StackSweep.Proofs.Chronicle

/-!
# What passing frames does

A step, a run of steps and a batch are all described by `Walk.Passes`. It says which visits the log
gains, that the walk keeps up with them, and, where positions ascend along the stack, how the trail
moves and that unwinding leaves a mark in the log. Nothing later looks into the two loops again.
-/

namespace StackSweep

/-- No position is missing, and outer frames have greater ones. -/
def Ascending (frames : List Frame) : Prop :=
  (∀ f ∈ frames, 0 < f.position.addr) ∧
    frames.Pairwise fun f g => f.position.addr < g.position.addr

instance : DecidablePred Ascending := fun frames =>
  inferInstanceAs (Decidable ((∀ f ∈ frames, 0 < f.position.addr) ∧
    frames.Pairwise fun f g => f.position.addr < g.position.addr))

namespace Trail

/-- The boundaries are positions of frames behind the walk, the leading one the outer of the two.
-/
structure Marks (t : Trail) (behind : List Frame) : Prop where
  trailing : t.trailing.addr = 0 ∨ ∃ f ∈ behind, f.position = t.trailing
  leading : t.leading.addr = 0 ∨ ∃ f ∈ behind, f.position = t.leading
  ordered : 0 < t.leading.addr → 0 < t.trailing.addr ∧ t.trailing.addr < t.leading.addr

/-- Neither boundary of the second trail lies further in than that of the first. -/
def IsWithin (t t' : Trail) : Prop :=
  t.trailing.addr ≤ t'.trailing.addr ∧ t.leading.addr ≤ t'.leading.addr

theorem marks_empty (behind : List Frame) : empty.Marks behind :=
  ⟨.inl rfl, .inl rfl, fun h => absurd h (Nat.lt_irrefl 0)⟩

theorem Marks.mono {t : Trail} {behind behind' : List Frame} (m : t.Marks behind)
    (sub : behind ⊆ behind') : t.Marks behind' where
  trailing := m.trailing.imp id fun ⟨f, hf, hp⟩ => ⟨f, sub hf, hp⟩
  leading := m.leading.imp id fun ⟨f, hf, hp⟩ => ⟨f, sub hf, hp⟩
  ordered := m.ordered

theorem IsWithin.refl (t : Trail) : t.IsWithin t := ⟨Nat.le_refl _, Nat.le_refl _⟩

theorem IsWithin.trans {t₁ t₂ t₃ : Trail} (h₁ : t₁.IsWithin t₂) (h₂ : t₂.IsWithin t₃) :
    t₁.IsWithin t₃ :=
  ⟨Nat.le_trans h₁.1 h₂.1, Nat.le_trans h₁.2 h₂.2⟩

/-- A boundary lies inside every frame that lies outside all the marked ones. -/
theorem Marks.leading_lt {t : Trail} {behind : List Frame} (m : t.Marks behind) {p : Position}
    (hp : 0 < p.addr) (beyond : ∀ f ∈ behind, f.position.addr < p.addr) :
    t.leading.addr < p.addr := by
  rcases m.leading with h | ⟨f, hf, h⟩
  · omega
  · exact h ▸ beyond f hf

theorem Marks.trailing_lt {t : Trail} {behind : List Frame} (m : t.Marks behind) {p : Position}
    (hp : 0 < p.addr) (beyond : ∀ f ∈ behind, f.position.addr < p.addr) :
    t.trailing.addr < p.addr := by
  rcases m.trailing with h | ⟨f, hf, h⟩
  · omega
  · exact h ▸ beyond f hf

/-- Recording the position of a frame beyond all the marked ones moves the trail outwards. -/
theorem Marks.record {t : Trail} {behind : List Frame} (m : t.Marks behind) {g : Frame}
    (hg : 0 < g.position.addr) (beyond : ∀ f ∈ behind, f.position.addr < g.position.addr) :
    (t.record g.position).Marks (behind ++ [g]) ∧ t.IsWithin (t.record g.position) ∧
      0 < (t.record g.position).trailing.addr ∧
      (0 < t.trailing.addr → 0 < (t.record g.position).leading.addr) := by
  have hl := m.leading_lt hg beyond
  have ht := m.trailing_lt hg beyond
  have old := m.mono (List.subset_append_left behind [g])
  have new : ∃ f ∈ behind ++ [g], f.position = g.position := ⟨g, by simp, rfl⟩
  obtain ⟨p, q⟩ := t
  by_cases hp : p = .none
  · have hq : q = .none := by
      refine Classical.byContradiction ?_
      intro hq
      exact Position.addr_pos_iff.1 (m.ordered (Position.addr_pos_iff.2 hq)).1 hp
    subst hp hq
    have record : (Trail.mk .none .none).record g.position = ⟨g.position, .none⟩ :=
      record_empty g.position
    rw [record]
    exact ⟨⟨.inr new, .inl rfl, fun h => absurd h (Nat.lt_irrefl 0)⟩,
      ⟨Nat.zero_le _, Nat.le_refl _⟩, hg, fun h => absurd h (Nat.lt_irrefl 0)⟩
  · have pos := Position.addr_pos_iff.2 hp
    by_cases hq : q = .none
    · subst hq
      rw [record_single hp]
      exact ⟨⟨old.trailing, .inr new, fun _ => ⟨pos, ht⟩⟩, ⟨Nat.le_refl _, Nat.zero_le _⟩, pos,
        fun _ => hg⟩
    · have pos' := Position.addr_pos_iff.2 hq
      rw [record_full hp hq]
      exact ⟨⟨old.leading, .inr new, fun _ => ⟨pos', hl⟩⟩,
        ⟨Nat.le_of_lt (m.ordered pos').2, Nat.le_of_lt hl⟩, pos', fun _ => hg⟩

end Trail

namespace Walk

/-- The walk over these frames is where these visits, latest first, have led it. -/
structure Tracks (k : Walk) (frames : List Frame) (vs : List (Visit × Verdict)) : Prop where
  inOrder : InOrder frames vs
  cursor : k.cursor = (processedIn vs).length
  ahead : processedIn vs ++ k.ahead = frames
  marks : Ascending frames → k.trail.Marks (processedIn vs)

theorem tracks_ofFrames (frames : List Frame) : (ofFrames frames).Tracks frames [] :=
  ⟨trivial, rfl, rfl, fun _ => Trail.marks_empty _⟩

section tracks

variable {k : Walk} {frames rest : List Frame} {vs : List (Visit × Verdict)} {f : Frame}

/-- Along an ascending stack the next frame lies beyond all the frames behind. -/
theorem Tracks.beyond (tr : k.Tracks frames vs) (asc : Ascending frames)
    (h : k.ahead = f :: rest) :
    0 < f.position.addr ∧ ∀ g ∈ processedIn vs, g.position.addr < f.position.addr := by
  have split := tr.ahead
  rw [h] at split
  subst split
  exact ⟨asc.1 f (by simp), fun g hg => (List.pairwise_append.1 asc.2).2.2 g hg f (by simp)⟩

theorem Tracks.processed {c : Nat} {t : Trail} (tr : (Walk.mk c (f :: rest) t).Tracks frames vs)
    {v : Visit} (hf : v.frame = f) (hr : v.registers = c) :
    (Walk.mk (c + 1) rest t).Tracks frames ((v, .processed) :: vs) where
  inOrder := by
    refine ⟨hr.trans tr.cursor, ⟨rest, ?_⟩, tr.inOrder⟩
    rw [hf, List.append_assoc, List.singleton_append]
    exact tr.ahead
  cursor := by
    have := tr.cursor
    simp only [processedIn, if_true, List.length_append, List.length_singleton] at this ⊢
    omega
  ahead := by
    simp only [processedIn, if_true, List.append_assoc, List.singleton_append, hf]
    exact tr.ahead
  marks asc := by
    simp only [processedIn, if_true]
    exact (tr.marks asc).mono (List.subset_append_left _ _)

theorem Tracks.refused {c : Nat} {t : Trail} (tr : (Walk.mk c (f :: rest) t).Tracks frames vs)
    {v : Visit} {d : Verdict} (hf : v.frame = f) (hr : v.registers = c) (hd : d ≠ .processed) :
    (Walk.mk c (f :: rest) t).Tracks frames ((v, d) :: vs) where
  inOrder := by
    refine ⟨hr.trans tr.cursor, ⟨rest, ?_⟩, tr.inOrder⟩
    rw [hf, List.append_assoc, List.singleton_append]
    exact tr.ahead
  cursor := by simpa [processedIn, hd] using tr.cursor
  ahead := by simpa [processedIn, hd] using tr.ahead
  marks asc := by simpa [processedIn, hd] using tr.marks asc

/-- A walk that has just processed a frame beyond its marks records where that frame is. -/
theorem Tracks.record (tr : k.Tracks frames vs) {ys : List Frame} {g : Frame}
    (hg : processedIn vs = ys ++ [g]) (marks : Ascending frames → k.trail.Marks ys) :
    (k.record g.position).Tracks frames vs ∧
      (Ascending frames → k.trail.IsWithin (k.record g.position).trail ∧
        (k.ahead ≠ [] → 0 < (k.record g.position).trail.trailing.addr ∧
          (0 < k.trail.trailing.addr → 0 < (k.record g.position).trail.leading.addr))) := by
  have beyond (asc : Ascending frames) :
      0 < g.position.addr ∧ ∀ f ∈ ys, f.position.addr < g.position.addr := by
    have split := tr.ahead
    rw [hg, List.append_assoc] at split
    subst split
    exact ⟨asc.1 g (by simp), fun f hf => (List.pairwise_append.1 asc.2).2.2 f hf g (by simp)⟩
  unfold Walk.record
  split
  · refine ⟨⟨tr.inOrder, tr.cursor, tr.ahead, ?_⟩, ?_⟩
    · intro asc
      rw [hg]
      exact ((marks asc).record (beyond asc).1 (beyond asc).2).1
    · intro asc
      exact ⟨((marks asc).record (beyond asc).1 (beyond asc).2).2.1, fun _ =>
        ((marks asc).record (beyond asc).1 (beyond asc).2).2.2⟩
  · rename_i done
    refine ⟨tr, fun _ => ⟨.refl _, fun left => absurd (hasNext_iff.2 left) done⟩⟩

end tracks

/-- How a pass leads from a walk and a log to others. If it unwound there is a frame left and, on an
ascending stack, the processor was what unwound. -/
def Passes (k : Walk) (log : List Event) (unwound : Prop) (k' : Walk) (log' : List Event) : Prop :=
  ∃ vs, Visited log vs log' ∧ (unwound → k'.ahead ≠ []) ∧
    ∀ frames earlier, k.Tracks frames earlier → k'.Tracks frames (vs ++ earlier) ∧
      (Ascending frames → k.trail.IsWithin k'.trail ∧ (unwound → ∃ x ∈ vs, x.2 = .unwound))

/-- A pass that leaves a frame and did not unwind fills the trail by one boundary more. -/
def Fills (k k' : Walk) : Prop :=
  ∀ frames earlier, Ascending frames → k.Tracks frames earlier → k'.ahead ≠ [] →
    0 < k'.trail.trailing.addr ∧ (0 < k.trail.trailing.addr → 0 < k'.trail.leading.addr)

theorem Passes.suffix {k k' : Walk} {log log' : List Event} {unwound : Prop}
    (h : k.Passes log unwound k' log') : log <:+ log' := by
  obtain ⟨_, seen, _⟩ := h
  exact seen.suffix

theorem Passes.left_of_unwound {k k' : Walk} {log log' : List Event} {unwound : Prop}
    (h : k.Passes log unwound k' log') (hu : unwound) : k'.ahead ≠ [] := by
  obtain ⟨_, _, left, _⟩ := h
  exact left hu

/-- What is known of a pass that unwound is known under any condition under which it did. -/
theorem Passes.imp {k k' : Walk} {log log' : List Event} {unwound unwound' : Prop}
    (h : k.Passes log unwound k' log') (imp : unwound' → unwound) :
    k.Passes log unwound' k' log' := by
  obtain ⟨vs, seen, left, led⟩ := h
  refine ⟨vs, seen, fun hu => left (imp hu), ?_⟩
  intro frames earlier tr
  obtain ⟨tr', moved⟩ := led frames earlier tr
  exact ⟨tr', fun asc => ⟨(moved asc).1, fun hu => (moved asc).2 (imp hu)⟩⟩

theorem Passes.trans {k₁ k₂ k₃ : Walk} {log₁ log₂ log₃ : List Event} {unwound : Prop}
    (h : k₁.Passes log₁ False k₂ log₂) (h' : k₂.Passes log₂ unwound k₃ log₃) :
    k₁.Passes log₁ unwound k₃ log₃ := by
  obtain ⟨vs, seen, _, led⟩ := h
  obtain ⟨ws, seen', left, led'⟩ := h'
  refine ⟨ws ++ vs, seen.trans seen', left, ?_⟩
  intro frames earlier tr
  obtain ⟨tr₂, moved⟩ := led frames earlier tr
  obtain ⟨tr₃, moved'⟩ := led' frames _ tr₂
  refine ⟨by rwa [List.append_assoc], fun asc => ⟨(moved asc).1.trans (moved' asc).1, ?_⟩⟩
  intro hu
  obtain ⟨x, hx, hd⟩ := (moved' asc).2 hu
  exact ⟨x, List.mem_append_left _ hx, hd⟩

/-- Entries of bookkeeping around a pass do not matter. -/
theorem Passes.around {k k' : Walk} {log log₁ log₂ log' : List Event} {unwound : Prop}
    (before : Visited log [] log₁) (h : k.Passes log₁ unwound k' log₂)
    (after : Visited log₂ [] log') : k.Passes log unwound k' log' := by
  obtain ⟨vs, seen, left, led⟩ := h
  exact ⟨vs, by simpa using (before.trans seen).trans after, left, led⟩

/-- Frames that are left were there before. -/
theorem Passes.ahead_ne_nil {k k' : Walk} {log log' : List Event} {unwound : Prop}
    {frames : List Frame} {earlier : List (Visit × Verdict)} (h : k.Passes log unwound k' log')
    (tr : k.Tracks frames earlier) (left : k'.ahead ≠ []) : k.ahead ≠ [] := by
  obtain ⟨vs, _, _, led⟩ := h
  have same := (led frames earlier tr).1.ahead.trans tr.ahead.symm
  rw [processedIn_append, List.append_assoc, List.append_cancel_left_eq] at same
  rw [← same]
  exact List.append_ne_nil_of_right_ne_nil _ left

end Walk

/-! ## Entries of a pass -/

section log

variable {ς ε : Type}

theorem Host.visited (h : Host ς ε) (v : Visit) (w : World ς) :
    Visited w.log [(v, (h.visit v w).1.verdict)] (h.visit v w).2.log :=
  .visit (h.label w) v _ _ .refl

theorem Bracket.visited_enter (w : World ς) : Visited w.log [] (enter w).2.log := by
  rw [log_enter]
  exact Visited.refl.asides (by simp [opening, Event.isAside])

theorem Bracket.visited_leave (b : Bracket) (w : World ς) : Visited w.log [] (b.leave w).log := by
  rw [log_leave]
  refine Visited.refl.asides ?_
  intro e he
  rw [List.mem_reverse, closing] at he
  cases hs : w.thread.pending <;> cases hp : b.preserved <;> simp [hs, hp] at he <;>
    rcases he with rfl | rfl | rfl | rfl | rfl | rfl <;> rfl

end log

namespace Walk

variable {ς ε : Type}

/-! ## Steps -/

/-- What the frames of a step have led to, in terms of the visits. -/
structure Stepped.Led (r : Stepped ε ς) (t : Trail) (last : Position) (cursor : Nat)
    (fs : List Frame) (log : List Event) (vs : List (Visit × Verdict)) : Prop where
  visited : Visited log vs r.world.log
  tracks : ∀ {frames earlier}, (Walk.mk cursor fs t).Tracks frames earlier →
    (Walk.mk r.cursor r.ahead t).Tracks frames (vs ++ earlier)
  last : processedIn vs = [] ∧ r.last = last ∨
    ∃ ys g, processedIn vs = ys ++ [g] ∧ r.last = g.position
  some_processed : r.outcome = .ok () → fs ≠ [] → processedIn vs ≠ []
  unwound : r.outcome.verdict = .unwound → r.ahead ≠ [] ∧ ∃ x ∈ vs, x.2 = .unwound

theorem stepFrames_led (h : Host ς ε) (sh : Shared) (t : Trail) (fs : List Frame) :
    ∀ (last : Position) (cursor : Nat) (w : World ς), ∃ vs,
      (stepFrames h sh last cursor fs w).Led t last cursor fs w.log vs := by
  induction fs with
  | nil =>
    intro last cursor w
    refine ⟨[], .refl, id, .inl ⟨rfl, rfl⟩, fun _ hne => absurd rfl hne, ?_⟩
    intro hu
    cases hu
  | cons f rest ih =>
    intro last cursor w
    have seen := h.visited ⟨f, cursor, sh.context, sh.published⟩ w
    unfold stepFrames
    split <;> rename_i w' eq <;> rw [eq] at seen
    · split
      · refine ⟨_, seen, fun tr => tr.processed rfl rfl, .inr ⟨[], f, rfl, rfl⟩, ?_, ?_⟩
        · intro _ _
          simp [processedIn]
        · intro hu
          cases hu
      · obtain ⟨vs, led⟩ := ih f.position (cursor + 1) w'
        refine ⟨_, seen.trans led.visited, ?_, ?_, ?_, ?_⟩
        · intro _ _ tr
          simpa using led.tracks (tr.processed rfl rfl)
        · right
          rw [processedIn_append]
          rcases led.last with ⟨hvs, hlast⟩ | ⟨ys, g, hvs, hlast⟩
          · exact ⟨[], f, by simp [hvs, processedIn], hlast⟩
          · exact ⟨f :: ys, g, by simp [hvs, processedIn], hlast⟩
        · intro _ _
          simp [processedIn_append, processedIn]
        · intro hu
          obtain ⟨left, x, hx, hd⟩ := led.unwound hu
          exact ⟨left, x, List.mem_append_left _ hx, hd⟩
    · refine ⟨_, seen, fun tr => tr.refused rfl rfl (by simp), .inl ⟨rfl, rfl⟩, ?_, ?_⟩
      · intro ho
        cases ho
      · intro hu
        cases hu
    · refine ⟨_, seen, fun tr => tr.refused rfl rfl (by simp), .inl ⟨rfl, rfl⟩, ?_, ?_⟩
      · intro ho
        cases ho
      · intro _
        exact ⟨by simp, _, List.mem_singleton_self _, rfl⟩

theorem step_spec (h : Host ς ε) (sh : Shared) (k : Walk) (w : World ς) :
    k.Passes w.log ((k.step h sh w).1.verdict = .unwound) (k.step h sh w).2.1
        (k.step h sh w).2.2.log ∧
      ((k.step h sh w).1 = .ok () → k.Fills (k.step h sh w).2.1) := by
  obtain ⟨vs, led⟩ := stepFrames_led h sh k.trail k.ahead .none k.cursor (Bracket.enter w).2
  unfold step
  simp only
  generalize hr : stepFrames h sh .none k.cursor k.ahead (Bracket.enter w).2 = r at led ⊢
  have seen := ((Bracket.visited_enter w).trans led.visited).trans
    (Bracket.visited_leave (Bracket.enter w).1 r.world)
  rw [List.nil_append, List.append_nil] at seen
  rcases led.last with ⟨hvs, hlast⟩ | ⟨ys, g, hvs, hlast⟩
  · -- Nothing was processed, so that nothing is recorded either.
    simp only [hlast, Position.isNone_none, if_true]
    refine ⟨⟨vs, seen, fun hu => (led.unwound hu).1, fun frames earlier tr =>
      ⟨led.tracks tr, fun _ => ⟨.refl _, fun hu => (led.unwound hu).2⟩⟩⟩, ?_⟩
    intro ho frames earlier _ tr left
    have same := (led.tracks tr).ahead.trans tr.ahead.symm
    rw [processedIn_append, hvs, List.append_nil, List.append_cancel_left_eq] at same
    exact absurd hvs (led.some_processed ho (same ▸ left))
  · have hp (earlier : List (Visit × Verdict)) :
        processedIn (vs ++ earlier) = (processedIn earlier ++ ys) ++ [g] := by
      rw [processedIn_append, hvs, List.append_assoc]
    have marks {frames earlier} (tr : k.Tracks frames earlier) (asc : Ascending frames) :
        k.trail.Marks (processedIn earlier ++ ys) :=
      (tr.marks asc).mono (List.subset_append_left _ _)
    have pos {frames earlier} (tr : k.Tracks frames earlier) (asc : Ascending frames) :
        0 < g.position.addr := by
      have split := (led.tracks tr).ahead
      rw [hp] at split
      exact asc.1 g (split ▸ by simp)
    rw [hlast]
    by_cases hg : g.position.isNone = true
    · have none_of {frames earlier} (tr : k.Tracks frames earlier) : ¬ Ascending frames :=
        fun asc => absurd (pos tr asc) (by rw [Position.isNone_iff.1 hg]; exact Nat.lt_irrefl 0)
      rw [if_pos hg]
      exact ⟨⟨vs, seen, fun hu => (led.unwound hu).1,
        fun _ _ tr => ⟨led.tracks tr, fun asc => absurd asc (none_of tr)⟩⟩,
        fun _ _ _ asc tr => absurd asc (none_of tr)⟩
    · rw [if_neg hg]
      refine ⟨⟨vs, seen, ?_, ?_⟩, ?_⟩
      · intro hu
        rw [ahead_record]
        exact (led.unwound hu).1
      · intro frames earlier tr
        have ⟨tr', moved⟩ := (led.tracks tr).record (hp earlier) (marks tr)
        exact ⟨tr', fun asc => ⟨(moved asc).1, fun hu => (led.unwound hu).2⟩⟩
      · intro _ frames earlier asc tr left
        rw [ahead_record] at left
        exact (((led.tracks tr).record (hp earlier) (marks tr)).2 asc).2 left

/-- A step that succeeds and leaves frames records the position of the last frame that it has
processed. -/
theorem step_records (h : Host ς ε) (sh : Shared) {k : Walk} (w : World ς) {frames : List Frame}
    {earlier : List (Visit × Verdict)} (asc : Ascending frames) (tr : k.Tracks frames earlier)
    (ok : (k.step h sh w).1 = .ok ()) (left : (k.step h sh w).2.1.ahead ≠ []) :
    ∃ vs ys g, (k.step h sh w).2.1.Tracks frames vs ∧
      processedIn vs = processedIn earlier ++ ys ++ [g] ∧
      (k.step h sh w).2.1.trail = k.trail.record g.position := by
  obtain ⟨vs, led⟩ := stepFrames_led h sh k.trail k.ahead .none k.cursor (Bracket.enter w).2
  unfold step at ok left ⊢
  simp only at ok left ⊢
  generalize hr : stepFrames h sh .none k.cursor k.ahead (Bracket.enter w).2 = r at led ok left ⊢
  have tr' := led.tracks tr
  have left' : r.ahead ≠ [] := by
    split at left
    · exact left
    · rwa [ahead_record] at left
  rcases led.last with ⟨hvs, -⟩ | ⟨ys, g, hvs, hlast⟩
  · have same := tr'.ahead.trans tr.ahead.symm
    rw [processedIn_append, hvs, List.append_nil, List.append_cancel_left_eq] at same
    exact absurd hvs (led.some_processed ok (same ▸ left'))
  · have hp : processedIn (vs ++ earlier) = processedIn earlier ++ ys ++ [g] := by
      rw [processedIn_append, hvs, List.append_assoc]
    have split := tr'.ahead
    rw [hp] at split
    have pos : 0 < g.position.addr := asc.1 g (split ▸ by simp)
    have found : r.last.isNone = false := by
      rw [hlast, Bool.eq_false_iff, Ne, Position.isNone_iff]
      exact Position.addr_pos_iff.1 pos
    rw [found, hlast]
    have marks (asc : Ascending frames) : k.trail.Marks (processedIn earlier ++ ys) :=
      (tr.marks asc).mono (List.subset_append_left _ _)
    refine ⟨vs ++ earlier, ys, g, (tr'.record hp marks).1, hp, ?_⟩
    have more : (Walk.mk r.cursor r.ahead k.trail).hasNext = true := hasNext_iff.2 left'
    simp [Walk.record, more]

/-- A run of steps that succeeds and leaves frames has filled the trail by one boundary for each
step. -/
theorem steps_spec (h : Host ς ε) (sh : Shared) (n : Nat) : ∀ (k : Walk) (w : World ς),
    k.Passes w.log ((steps h sh n k w).1.verdict = .unwound) (steps h sh n k w).2.1
        (steps h sh n k w).2.2.log ∧
      ((steps h sh n k w).1 = .ok () → ∀ frames earlier, Ascending frames →
        k.Tracks frames earlier → (steps h sh n k w).2.1.ahead ≠ [] →
          (0 < n → 0 < (steps h sh n k w).2.1.trail.trailing.addr) ∧
            (1 < n ∨ 0 < n ∧ 0 < k.trail.trailing.addr →
              0 < (steps h sh n k w).2.1.trail.leading.addr)) := by
  induction n with
  | zero =>
    intro k w
    exact ⟨⟨[], .refl, nofun, fun _ _ tr => ⟨tr, fun _ => ⟨.refl _, nofun⟩⟩⟩,
      fun _ _ _ _ _ _ => by simp⟩
  | succ n ih =>
    intro k w
    have first := step_spec h sh k w
    unfold steps
    split <;> rename_i k₁ w₁ eq <;> rw [eq] at first
    · obtain ⟨pass, fills⟩ := ih k₁ w₁
      simp only [Outcome.verdict_ok, reduceCtorEq] at first
      refine ⟨first.1.trans pass, ?_⟩
      intro ho frames earlier asc tr left
      obtain ⟨vs, -, -, led⟩ := first.1
      obtain ⟨tr₁, -⟩ := led frames earlier tr
      have filled := first.2 trivial frames earlier asc tr (pass.ahead_ne_nil tr₁ left)
      obtain ⟨ws, -, -, led'⟩ := pass
      obtain ⟨out₁, out₂⟩ := ((led' _ _ tr₁).2 asc).1
      have next := (fills ho _ _ asc tr₁ left).2
      refine ⟨fun _ => by omega, ?_⟩
      intro hn
      by_cases hz : n = 0
      · have := filled.2 (by omega)
        omega
      · exact next (.inr ⟨by omega, filled.1⟩)
    · exact ⟨first.1, nofun⟩
    · exact ⟨first.1, nofun⟩

/-! ## Batches -/

theorem batchFrames_spec (h : Host ς ε) (sh : Shared) (interval : Nat) (fs : List Frame) :
    ∀ (seen cursor : Nat) (t : Trail) (w : World ς),
      (Walk.mk cursor fs t).Passes w.log
          ((batchFrames h sh interval seen cursor t fs w).1.verdict = .unwound)
          (batchFrames h sh interval seen cursor t fs w).2.1
          (batchFrames h sh interval seen cursor t fs w).2.2.log ∧
        ((batchFrames h sh interval seen cursor t fs w).1 = .ok .exhausted →
          (batchFrames h sh interval seen cursor t fs w).2.1.ahead = []) := by
  induction fs with
  | nil =>
    intro seen cursor t w
    exact ⟨⟨[], .refl, nofun, fun _ _ tr => ⟨tr, fun _ => ⟨.refl _, nofun⟩⟩⟩, fun _ => rfl⟩
  | cons f rest ih =>
    intro seen cursor t w
    have visited := h.visited ⟨f, cursor, sh.context, sh.published⟩ w
    unfold batchFrames
    split
    · -- The assertion does not fail on an ascending stack.
      rename_i inner
      refine ⟨⟨[], .refl, fun _ => by simp, fun _ _ tr => ⟨tr, fun asc => ⟨.refl _, ?_⟩⟩⟩,
        nofun⟩
      intro _
      obtain ⟨pos, beyond⟩ := tr.beyond asc rfl
      have := (tr.marks asc).leading_lt pos beyond
      have := Position.isInner_iff.1 inner
      simp only at *
      omega
    · split <;> rename_i w' eq <;> rw [eq] at visited
      · split
        · have recorded : (Walk.mk cursor (f :: rest) t).Passes w.log False
              ((Walk.mk (cursor + 1) rest t).record f.position) w'.log := by
            refine ⟨_, visited, nofun, ?_⟩
            intro frames earlier tr
            have passed := tr.processed (v := ⟨f, cursor, sh.context, sh.published⟩) rfl rfl
            obtain ⟨tr', moved⟩ := passed.record (if_pos rfl) tr.marks
            exact ⟨tr', fun asc => ⟨(moved asc).1, nofun⟩⟩
          simp only
          split
          · exact ⟨recorded.imp nofun, nofun⟩
          · obtain ⟨pass, done⟩ := ih (seen + 1) (cursor + 1)
              ((Walk.mk (cursor + 1) rest t).record f.position).trail w'
            refine ⟨recorded.trans ?_, done⟩
            have same : Walk.mk (cursor + 1) rest
                ((Walk.mk (cursor + 1) rest t).record f.position).trail =
                (Walk.mk (cursor + 1) rest t).record f.position := by
              unfold record
              split <;> rfl
            rwa [same] at pass
        · obtain ⟨pass, done⟩ := ih seen (cursor + 1) t w'
          refine ⟨Passes.trans ⟨_, visited, nofun, ?_⟩ pass, done⟩
          intro _ _ tr
          exact ⟨tr.processed rfl rfl, fun _ => ⟨.refl _, nofun⟩⟩
      · refine ⟨⟨_, visited, nofun, ?_⟩, nofun⟩
        intro _ _ tr
        exact ⟨tr.refused rfl rfl (by simp), fun _ => ⟨.refl _, nofun⟩⟩
      · refine ⟨⟨_, visited, fun _ => by simp, ?_⟩, nofun⟩
        intro _ _ tr
        exact ⟨tr.refused rfl rfl (by simp), fun _ =>
          ⟨.refl _, fun _ => ⟨_, List.mem_singleton_self _, rfl⟩⟩⟩

theorem batch_spec (h : Host ς ε) (sh : Shared) (interval : Nat) (k : Walk) (w : World ς) :
    k.Passes w.log ((k.batch h sh interval w).1.verdict = .unwound) (k.batch h sh interval w).2.1
        (k.batch h sh interval w).2.2.log ∧
      ((k.batch h sh interval w).1 = .ok .exhausted →
        (k.batch h sh interval w).2.1.ahead = []) := by
  obtain ⟨pass, done⟩ :=
    batchFrames_spec h sh interval k.ahead 0 k.cursor k.trail (Bracket.enter w).2
  exact ⟨pass.around (Bracket.visited_enter w) (Bracket.visited_leave _ _), done⟩

end Walk

end StackSweep
