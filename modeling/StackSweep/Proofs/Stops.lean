import StackSweep.Proofs.Preserving

/-!
# Where boundaries come from

A walk stops at a frame when that has a barrier, or when the frame outside it is refused. Every
boundary, in the trail of a walk, published or answered, is the position of a frame at which the
walk has stopped. Whether that frame is a trampoline is never asked. A trampoline has no meaningful
position of its own, and questions about it are answered for its sender, but a walk that stops at
one records its position all the same. Frames inside of that then count as safe, processed or not.
-/

namespace StackSweep

variable {ς ε : Type}

/-- In the course of these visits, latest first, the walk has stopped at the frame. -/
inductive Host.StopsAt (h : Host ς ε) (f : Frame) : List (Visit × Verdict) → Prop
  | barrier {v earlier} (w : World ς) : v.frame = f → h.hasBarrier f w = true →
      StopsAt h f ((v, .processed) :: earlier)
  /-- The frame outside it was refused. -/
  | refused {v x earlier} : v.frame = f → x.2 ≠ .processed →
      StopsAt h f (x :: (v, .processed) :: earlier)
  | earlier {x vs} : StopsAt h f vs → StopsAt h f (x :: vs)

/-- The position is missing, or these visits have stopped at a frame there. -/
def Host.Bounds (h : Host ς ε) (vs : List (Visit × Verdict)) (p : Position) : Prop :=
  p = .none ∨ ∃ f, h.StopsAt f vs ∧ f.position = p

/-- Both boundaries come from these visits. -/
structure Host.Leaves (h : Host ς ε) (vs : List (Visit × Verdict)) (t : Trail) : Prop where
  trailing : h.Bounds vs t.trailing
  leading : h.Bounds vs t.leading

section stops

variable {h : Host ς ε} {f : Frame} {vs : List (Visit × Verdict)} {t : Trail} {p : Position}

theorem Host.StopsAt.later (stops : h.StopsAt f vs) (ws : List (Visit × Verdict)) :
    h.StopsAt f (ws ++ vs) := by
  induction ws with
  | nil => exact stops
  | cons x ws ih => exact .earlier ih

/-- What happened before does not matter. -/
theorem Host.StopsAt.since (stops : h.StopsAt f vs) (earlier : List (Visit × Verdict)) :
    h.StopsAt f (vs ++ earlier) := by
  induction stops with
  | barrier w hf hb => exact .barrier w hf hb
  | refused hf hx => exact .refused hf hx
  | earlier _ ih => exact .earlier ih

/-- A walk stops at frames that it has processed. -/
theorem Host.StopsAt.processed (stops : h.StopsAt f vs) : f ∈ processedIn vs := by
  induction stops with
  | barrier w hf hb => simp [processedIn, hf]
  | refused hf hx => simp [processedIn, hf, hx]
  | @earlier x vs _ ih =>
    unfold processedIn
    split
    · exact List.mem_append_left _ ih
    · exact ih

/-- What it takes to stop at a frame. -/
theorem Host.StopsAt.reason (stops : h.StopsAt f vs) :
    (∃ w, h.hasBarrier f w = true) ∨ ∃ x ∈ vs, x.2 ≠ .processed := by
  induction stops with
  | barrier w _ hb => exact .inl ⟨w, hb⟩
  | refused _ hx => exact .inr ⟨_, List.mem_cons_self, hx⟩
  | earlier _ ih =>
    rcases ih with barrier | ⟨x, hx, hd⟩
    · exact .inl barrier
    · exact .inr ⟨x, List.mem_cons_of_mem _ hx, hd⟩

theorem Host.Bounds.later (b : h.Bounds vs p) (ws : List (Visit × Verdict)) :
    h.Bounds (ws ++ vs) p := by
  rcases b with none | ⟨f, stops, hp⟩
  · exact .inl none
  · exact .inr ⟨f, stops.later ws, hp⟩

theorem Host.leaves_empty (h : Host ς ε) (vs : List (Visit × Verdict)) : h.Leaves vs .empty :=
  ⟨.inl rfl, .inl rfl⟩

theorem Host.Leaves.later (l : h.Leaves vs t) (ws : List (Visit × Verdict)) :
    h.Leaves (ws ++ vs) t :=
  ⟨l.trailing.later ws, l.leading.later ws⟩

theorem Host.Leaves.record (l : h.Leaves vs t) (b : h.Bounds vs p) : h.Leaves vs (t.record p) := by
  unfold Trail.record
  split
  · exact ⟨b, l.leading⟩
  · split
    · exact ⟨l.trailing, b⟩
    · exact ⟨l.leading, b⟩

end stops

/-! ## Passing frames -/

namespace Walk

variable {h : Host ς ε}

/-- Where the frames of a step have led: to the end of the stack, to a refusal of the very first, or
to a frame at which the step has stopped. -/
inductive Stepped.Halts (h : Host ς ε) (r : Stepped ε ς) (last : Position) :
    List (Visit × Verdict) → Prop
  | ended {vs} : r.ahead = [] → Halts h r last vs
  | rebuffed {x} : x.2 ≠ .processed → r.last = last → Halts h r last [x]
  | stopped {vs} (f : Frame) : h.StopsAt f vs → f.position = r.last → Halts h r last vs

theorem stepFrames_halts (h : Host ς ε) (sh : Shared) (fs : List Frame) :
    ∀ (last : Position) (cursor : Nat) (w : World ς), ∃ vs,
      Visited w.log vs (stepFrames h sh last cursor fs w).world.log ∧
        (stepFrames h sh last cursor fs w).Halts h last vs := by
  induction fs with
  | nil => exact fun _ _ _ => ⟨[], .refl, .ended rfl⟩
  | cons f rest ih =>
    intro last cursor w
    have seen := h.visited ⟨f, cursor, sh.context, sh.published⟩ w
    unfold stepFrames
    split <;> rename_i w' eq <;> rw [eq] at seen
    · split
      · rename_i barrier
        exact ⟨_, seen, .stopped f (.barrier w rfl barrier) rfl⟩
      · obtain ⟨vs, seen', halts⟩ := ih f.position (cursor + 1) w'
        refine ⟨_, seen.trans seen', ?_⟩
        cases halts with
        | ended done => exact .ended done
        | rebuffed hx hl => exact .stopped f (.refused rfl hx) hl.symm
        | stopped g stops hg => exact .stopped g (stops.since _) hg
    · exact ⟨_, seen, .rebuffed (by simp) rfl⟩
    · exact ⟨_, seen, .rebuffed (by simp) rfl⟩

/-- From one walk and log to another, every boundary that was recorded comes from the visits between
them. -/
def Keeps (h : Host ς ε) (k : Walk) (log : List Event) (k' : Walk) (log' : List Event) : Prop :=
  ∃ vs, Visited log vs log' ∧
    ∀ earlier, h.Leaves earlier k.trail → h.Leaves (vs ++ earlier) k'.trail

theorem Keeps.refl (k : Walk) (log : List Event) : k.Keeps h log k log :=
  ⟨[], .refl, fun _ leaves => leaves⟩

theorem Keeps.trans {k₁ k₂ k₃ : Walk} {log₁ log₂ log₃ : List Event}
    (first : k₁.Keeps h log₁ k₂ log₂) (next : k₂.Keeps h log₂ k₃ log₃) :
    k₁.Keeps h log₁ k₃ log₃ := by
  obtain ⟨vs, seen, kept⟩ := first
  obtain ⟨ws, seen', kept'⟩ := next
  refine ⟨ws ++ vs, seen.trans seen', ?_⟩
  intro earlier leaves
  rw [List.append_assoc]
  exact kept' _ (kept _ leaves)

/-- Visits alone record nothing. -/
theorem keeps_visited {k k' : Walk} {log log' : List Event} {vs : List (Visit × Verdict)}
    (seen : Visited log vs log') (same : k'.trail = k.trail) : k.Keeps h log k' log' :=
  ⟨vs, seen, fun _ leaves => by rw [same]; exact leaves.later vs⟩

theorem step_keeps (h : Host ς ε) (sh : Shared) (k : Walk) (w : World ς) :
    k.Keeps h w.log (k.step h sh w).2.1 (k.step h sh w).2.2.log := by
  obtain ⟨vs, seen, halts⟩ := stepFrames_halts h sh k.ahead .none k.cursor (Bracket.enter w).2
  unfold step
  simp only
  generalize stepFrames h sh .none k.cursor k.ahead (Bracket.enter w).2 = r at seen halts ⊢
  have whole : Visited w.log vs ((Bracket.enter w).1.leave r.world).log := by
    simpa using ((Bracket.visited_enter w).trans seen).trans (Bracket.visited_leave _ _)
  by_cases hl : r.last.isNone = true
  · rw [if_pos hl]
    exact keeps_visited whole rfl
  · rw [if_neg hl]
    cases halts with
    | ended done =>
      refine keeps_visited whole ?_
      rw [record_of_done (by simp [hasNext, done])]
    | rebuffed _ none =>
      rw [none] at hl
      exact absurd rfl hl
    | stopped f stops hf =>
      refine ⟨vs, whole, ?_⟩
      intro earlier leaves
      have kept := leaves.later vs
      unfold record
      split
      · exact kept.record (.inr ⟨f, stops.since earlier, hf⟩)
      · exact kept

theorem steps_keeps (h : Host ς ε) (sh : Shared) (n : Nat) : ∀ (k : Walk) (w : World ς),
    k.Keeps h w.log (steps h sh n k w).2.1 (steps h sh n k w).2.2.log := by
  induction n with
  | zero => exact fun k w => .refl k w.log
  | succ n ih =>
    intro k w
    have first := k.step_keeps h sh w
    unfold steps
    split <;> rename_i k' w' eq <;> rw [eq] at first
    · exact first.trans (ih k' w')
    · exact first
    · exact first

theorem batchFrames_keeps (h : Host ς ε) (sh : Shared) (interval : Nat) (fs : List Frame) :
    ∀ (seen cursor : Nat) (t : Trail) (w : World ς),
      (Walk.mk cursor fs t).Keeps h w.log (batchFrames h sh interval seen cursor t fs w).2.1
        (batchFrames h sh interval seen cursor t fs w).2.2.log := by
  induction fs with
  | nil => exact fun _ _ _ w => .refl _ w.log
  | cons f rest ih =>
    intro seen cursor t w
    have visited := h.visited ⟨f, cursor, sh.context, sh.published⟩ w
    unfold batchFrames
    split
    · exact .refl _ w.log
    · split <;> rename_i w' eq <;> rw [eq] at visited
      · split
        · rename_i barrier
          have recorded : (Walk.mk cursor (f :: rest) t).Keeps h w.log
              ((Walk.mk (cursor + 1) rest t).record f.position) w'.log := by
            refine ⟨_, visited, ?_⟩
            intro earlier leaves
            have kept := leaves.later [(⟨f, cursor, sh.context, sh.published⟩, .processed)]
            unfold record
            split
            · exact kept.record (.inr ⟨f, .barrier w rfl barrier, rfl⟩)
            · exact kept
          simp only
          split
          · exact recorded
          · exact recorded.trans (ih (seen + 1) (cursor + 1) _ w')
        · exact (keeps_visited visited rfl).trans (ih seen (cursor + 1) t w')
      · exact keeps_visited visited rfl
      · exact keeps_visited visited rfl

theorem batch_keeps (h : Host ς ε) (sh : Shared) (interval : Nat) (k : Walk) (w : World ς) :
    k.Keeps h w.log (k.batch h sh interval w).2.1 (k.batch h sh interval w).2.2.log := by
  have moved := batchFrames_keeps h sh interval k.ahead 0 k.cursor k.trail (Bracket.enter w).2
  have entered : k.Keeps h w.log k (Bracket.enter w).2.log :=
    keeps_visited (Bracket.visited_enter w) rfl
  exact entered.trans (moved.trans (keeps_visited (Bracket.visited_leave _ _) rfl))

/-- If frames are left after a step, the last frame that it has processed has been recorded, however
the step ended and whatever the frame is. Only a missing position is passed over. -/
theorem step_records_last (h : Host ς ε) (sh : Shared) (k : Walk) (w : World ς)
    (left : (k.step h sh w).2.1.ahead ≠ []) :
    ∃ vs, Visited w.log vs (k.step h sh w).2.2.log ∧
      ∀ ys g, processedIn vs = ys ++ [g] → g.position ≠ .none →
        (k.step h sh w).2.1.trail = k.trail.record g.position := by
  obtain ⟨vs, led⟩ := stepFrames_led h sh k.trail k.ahead .none k.cursor (Bracket.enter w).2
  unfold step at left ⊢
  simp only at left ⊢
  generalize stepFrames h sh .none k.cursor k.ahead (Bracket.enter w).2 = r at led left ⊢
  refine ⟨vs, ?_, ?_⟩
  · simpa using ((Bracket.visited_enter w).trans led.visited).trans (Bracket.visited_leave _ _)
  · intro ys g hvs pos
    have hl : r.last = g.position := by
      rcases led.last with ⟨none, -⟩ | ⟨zs, g', hvs', hl⟩
      · simp [none] at hvs
      · obtain ⟨-, same⟩ := List.append_inj' (hvs.symm.trans hvs') rfl
        cases same
        exact hl
    have found : r.last.isNone = false := by
      rw [hl, Bool.eq_false_iff, Ne, Position.isNone_iff]
      exact pos
    rw [found] at left ⊢
    simp only [Bool.false_eq_true, if_false, ahead_record] at left ⊢
    have more : (Walk.mk r.cursor r.ahead k.trail).hasNext = true := hasNext_iff.2 left
    simp [record, more, hl]

end Walk

/-! ## Boundaries of an attempt -/

/-- The boundary is missing, or the walk of the attempt has stopped at a frame there. -/
def Attempt.Marks (h : Host ς ε) (a : Attempt) (p : Position) : Prop :=
  p = .none ∨ ∃ fs f, a.snapshot = some fs ∧ f ∈ fs ∧ h.StopsAt f a.visits ∧ f.position = p

/-- The boundary is missing, or the walk of one of the attempts was in place when it was published
and had stopped at a frame there. -/
def Host.Owns (h : Host ς ε) (as : List Attempt) (p : Published) : Prop :=
  p.boundary = .none ∨ ∃ a ∈ as, a.installed = true ∧ p.word = .pack a.epoch false ∧
    a.Marks h p.boundary

section attempts

variable {h : Host ς ε} {a : Attempt} {as : List Attempt} {p : Published}

theorem Attempt.marks_of_bounds (sound : a.IsSound) (installed : a.installed = true)
    {q : Position} (bounds : h.Bounds a.visits q) : a.Marks h q := by
  rcases bounds with none | ⟨f, stops, hq⟩
  · exact .inl none
  · obtain ⟨fs, hs⟩ := Option.ne_none_iff_exists'.1 (sound.installed installed)
    exact .inr ⟨fs, f, hs, (sound.inOrder fs hs).isPrefix.subset stops.processed, stops, hq⟩

/-- Further visits, and whatever else does not touch them, leave an attempt its marks. -/
theorem Host.Owns.modifyHead {change : Attempt → Attempt} (owns : h.Owns as p)
    (same : ∀ a, (change a).epoch = a.epoch ∧ (change a).snapshot = a.snapshot ∧
      (change a).installed = a.installed)
    (more : ∀ a, ∃ vs, (change a).visits = vs ++ a.visits) : h.Owns (as.modifyHead change) p := by
  rcases owns with none | ⟨a, ha, installed, word, marks⟩
  · exact .inl none
  · cases as with
    | nil => cases ha
    | cons b as =>
      rcases List.mem_cons.1 ha with rfl | ha
      · obtain ⟨epoch, snapshot, same⟩ := same a
        obtain ⟨vs, visits⟩ := more a
        refine .inr ⟨change a, List.mem_cons_self, same.trans installed, epoch.symm ▸ word, ?_⟩
        rcases marks with none | ⟨fs, f, hs, hf, stops, hp⟩
        · exact .inl none
        · exact .inr ⟨fs, f, snapshot.trans hs, hf, visits.symm ▸ stops.later vs, hp⟩
      · exact .inr ⟨a, List.mem_cons_of_mem _ ha, installed, word, marks⟩

theorem Host.Owns.cons (owns : h.Owns as p) (a : Attempt) : h.Owns (a :: as) p := by
  rcases owns with none | ⟨b, hb, holds⟩
  · exact .inl none
  · exact .inr ⟨b, List.mem_cons_of_mem _ hb, holds⟩

theorem Host.Owns.add (owns : h.Owns as p) (vs : List (Visit × Verdict)) :
    h.Owns (as.modifyHead (.add vs)) p :=
  owns.modifyHead (fun _ => ⟨rfl, rfl, rfl⟩) fun _ => ⟨vs, rfl⟩

theorem Host.Owns.tell (owns : h.Owns as p) (w : ProgressWord) :
    h.Owns (as.modifyHead (.tell w)) p :=
  owns.modifyHead (fun _ => ⟨rfl, rfl, rfl⟩) fun _ => ⟨[], rfl⟩

end attempts

namespace Sweep

/-- The trail of the walk and everything that has been published come from stops. -/
structure Bounded (h : Host ς ε) (birth : Epoch) (s : Sweep) (log : List Event) : Prop where
  walk : ∀ k, s.walk = some k → ∀ a ∈ (attempts birth log).head?, h.Leaves a.visits k.trail
  published : ∀ p ∈ publications birth log, h.Owns (attempts birth log) p
  latest : (publications birth log).head? = some s.published

variable {h : Host ς ε} {birth : Epoch} {s s' : Sweep} {log log' : List Event}

theorem bounded_settled (h : Host ς ε) (birth : Epoch) (k : KindId) :
    (settled birth).Bounded h birth [.epochRead k birth] where
  walk := nofun
  published := by
    rintro p (_ | ⟨_, ⟨⟩⟩)
    exact .inl rfl
  latest := rfl

theorem bounded_visited (b : s.Bounded h birth log) {vs : List (Visit × Verdict)}
    (seen : Visited log vs log') {walk : Option Walk}
    (moved : ∀ k, walk = some k → ∀ a ∈ (attempts birth log).head?,
      h.Leaves (vs ++ a.visits) k.trail) : Bounded h birth { s with walk := walk } log' := by
  obtain ⟨a, as, has⟩ := exists_attempts birth log
  have published := b.published
  rw [has] at moved published
  refine ⟨?_, ?_, ?_⟩
  · rw [seen.attempts_eq, has]
    rintro k hk _ ⟨⟩
    exact moved k hk a rfl
  · rw [(seen.publications_eq birth).1, seen.attempts_eq, has]
    exact fun p hp => (published p hp).add vs
  · rw [(seen.publications_eq birth).1]
    exact b.latest

theorem bounded_asides (b : s.Bounded h birth log) (asides : Visited log [] log') :
    s.Bounded h birth log' :=
  bounded_visited b asides b.walk

/-- Moving the walk on. -/
theorem bounded_keeps {k k' : Walk} (b : s.Bounded h birth log) (hk : s.walk = some k)
    (keeps : k.Keeps h log k' log') : Bounded h birth { s with walk := some k' } log' := by
  obtain ⟨vs, seen, kept⟩ := keeps
  refine bounded_visited b seen ?_
  rintro _ ⟨⟩ a ha
  exact kept a.visits (b.walk k hk a ha)

/-- What is published of a walk with frames left is the trailing boundary of its trail. -/
theorem bounded_publishes (acc : s.Accounted (attempts birth log)) (b : s.Bounded h birth log)
    (published : s.Publishes log s' log') : s'.Bounded h birth log' := by
  obtain ⟨walk, told, latest⟩ := b
  have walk' (w : ProgressWord) : ∀ k, s.walk = some k →
      ∀ a ∈ ((attempts birth log).modifyHead (.tell w)).head?, h.Leaves a.visits k.trail := by
    obtain ⟨a, as, has⟩ := exists_attempts birth log
    rw [has] at walk ⊢
    rintro k hk _ ⟨⟩
    exact walk k hk a rfl
  have told' (w : ProgressWord) : ∀ p ∈ publications birth log,
      h.Owns ((attempts birth log).modifyHead (.tell w)) p :=
    fun p hp => (told p hp).tell w
  cases published with
  | @boundary k l hk left pos =>
    refine ⟨walk' _, List.forall_mem_cons.2 ⟨?_, told' _⟩, rfl⟩
    obtain ⟨a, as, fs, has, hs, installed, epoch, -⟩ := acc.follows.of_walk hk
    have leaves := walk k hk a (by rw [has]; rfl)
    have owns : h.Owns (attempts birth log) ⟨k.trail.trailing, .pack s.epoch false⟩ := by
      rw [has]
      exact .inr ⟨a, List.mem_cons_self, installed, by rw [epoch], Attempt.marks_of_bounds
        (acc.sound a (by rw [has]; exact List.mem_cons_self)) installed leaves.trailing⟩
    exact owns.tell _
  | ending l exhausted =>
    split
    · exact ⟨walk' _, List.forall_mem_cons.2 ⟨.inl rfl, told' _⟩, rfl⟩
    · exact ⟨walk' _, List.forall_mem_cons.2 ⟨.inl rfl, told' _⟩, rfl⟩
  | stuck => exact ⟨walk, told, latest⟩

/-- Every part of a turn leaves boundaries where walks have stopped. -/
theorem preserved_bounded (h : Host ς ε) (birth : Epoch) :
    Preserved h birth (Bounded h birth) where
  read e b := ⟨b.walk, b.published, b.latest⟩
  asides b seen := bounded_asides b seen
  publishes acc b published := bounded_publishes acc b published
  step sh w _ hk b := bounded_keeps b hk (Walk.step_keeps h sh _ w)
  batch sh w _ hk b := bounded_keeps b hk (Walk.batch_keeps h sh _ _ w)
  idle e l b := ⟨by simp, fun p hp => (b.published p hp).cons _, b.latest⟩
  begun {s k w'} context w b steps := by
    have keeps := Walk.steps_keeps h ⟨context, s.published⟩ h.pacing.initialFrames
      (.ofFrames w.thread.frames) ((announced h w).walkStack .incremental).2
    rw [show Walk.steps h _ _ _ _ = (.ok (), k, w') from steps] at keeps
    obtain ⟨vs, seen, kept⟩ := keeps
    have same : attempts birth (.installed (h.label w') (w.readEpoch h.kind).1 :: w'.log) =
        ⟨(w.readEpoch h.kind).1, some w.thread.frames, vs, true, false⟩ ::
          attempts birth w.log := by
      rw [attempts, attempts_started seen]
      rfl
    refine ⟨?_, ?_, ?_⟩
    · rw [same]
      rintro _ ⟨⟩ _ ⟨⟩
      simpa using kept [] (h.leaves_empty [])
    · rw [same]
      intro p hp
      exact (b.published p ((seen.publications_eq birth).1 ▸ hp)).cons _
    · exact (congrArg List.head? (seen.publications_eq birth).1).trans b.latest
  refused {s} context w b refused := by
    obtain ⟨vs, seen, -⟩ := firstSteps_passes h context s w
    refine ⟨by simp, ?_, ?_⟩
    · rw [attempts_started seen]
      intro p hp
      exact (b.published p ((seen.publications_eq birth).1 ▸ hp)).cons _
    · exact (congrArg List.head? (seen.publications_eq birth).1).trans b.latest

end Sweep

namespace Site

variable {h : Host ς ε} {birth : Epoch} {site : Site ς}

/-- All boundaries are positions of frames at which walks have stopped. -/
structure HoldsStops (h : Host ς ε) (birth : Epoch) (site : Site ς) : Prop where
  /-- Those in the trail of the walk, which is that of the latest attempt. -/
  trail : ∀ k, site.sweep.walk = some k → ∃ a as, attempts birth site.world.log = a :: as ∧
    a.installed = true ∧ a.Marks h k.trail.trailing ∧ a.Marks h k.trail.leading
  /-- Those that were ever published, each with the word of the attempt. -/
  published : ∀ p ∈ publications birth site.world.log, h.Owns (attempts birth site.world.log) p
  latest : (publications birth site.world.log).head? = some site.sweep.published
  /-- The one that the holder of the lock answers. -/
  answered : ∃ a ∈ attempts birth site.world.log,
    a.Marks h (site.sweep.lastBoundary h site.world).1

/-- Every boundary is the position of a frame of the walked stack at which the walk has stopped,
wherever positions lie and whatever happened before. A trampoline can be that frame: if it has a
barrier, or if the frame outside it was refused. For a step that leaves frames records whichever
frame it has processed last. -/
theorem holdsStops_of_reachable (r : Reachable h birth site) :
    site.HoldsStops h birth ∧
    (∀ a ∈ attempts birth site.world.log, ∀ f, h.StopsAt f a.visits →
      (∃ w, h.hasBarrier f w = true) ∨ ∃ x ∈ a.visits, x.2 ≠ .processed) ∧
    ∀ (sh : Walk.Shared) (k : Walk) (w : World ς), (k.step h sh w).2.1.ahead ≠ [] →
      ∃ vs, Visited w.log vs (k.step h sh w).2.2.log ∧
        ∀ ys g, processedIn vs = ys ++ [g] → g.position ≠ .none →
          (k.step h sh w).2.1.trail = k.trail.record g.position := by
  have bounded := r.bears (Sweep.preserved_bounded h birth) (Sweep.bounded_settled h birth h.kind)
  have acc := r.accounted
  have trail (k : Walk) (hk : site.sweep.walk = some k) :
      ∃ a as, attempts birth site.world.log = a :: as ∧ a.installed = true ∧
        a.Marks h k.trail.trailing ∧ a.Marks h k.trail.leading := by
    obtain ⟨a, as, fs, has, -, installed, -, -⟩ := acc.follows.of_walk hk
    have leaves := bounded.walk k hk a (by rw [has]; rfl)
    have sound := acc.sound a (by rw [has]; exact List.mem_cons_self)
    exact ⟨a, as, has, installed, Attempt.marks_of_bounds sound installed leaves.trailing,
      Attempt.marks_of_bounds sound installed leaves.leading⟩
  refine ⟨⟨trail, bounded.published, bounded.latest, ?_⟩, fun _ _ _ stops => stops.reason,
    fun sh k w => Walk.step_records_last h sh k w⟩
  show ∃ a ∈ attempts birth site.world.log,
    a.Marks h (site.sweep.processedBoundary (site.current h))
  obtain ⟨a, as, has⟩ := exists_attempts birth site.world.log
  unfold Sweep.processedBoundary
  split
  · exact ⟨a, by rw [has]; exact List.mem_cons_self, .inl rfl⟩
  · split
    · exact ⟨a, by rw [has]; exact List.mem_cons_self, .inl rfl⟩
    · rename_i k hk
      obtain ⟨b, bs, hbs, -, -, leading⟩ := trail k hk
      exact ⟨b, by rw [hbs]; exact List.mem_cons_self, leading⟩

/-- The two innermost frames are trampolines, and their positions say nothing about where they
stand. -/
def stubbedFrames : List Frame :=
  [⟨0, ⟨90⟩, true, true⟩, ⟨1, ⟨95⟩, true, true⟩, ⟨2, ⟨30⟩, true, false⟩, ⟨3, ⟨40⟩, false, false⟩]

/-- The epoch moves on when these are the frames of the thread. -/
def stubbing : Site Bool :=
  { fresh with world := { fresh.world with
      thread := { fresh.world.thread with stack := some stubbedFrames }
      epochs := .cells [1] } }

/-- The campaign has begun. -/
def stubbed : Site Bool := stubbing.stepped

theorem reachable_stubbed : Reachable moody 0 stubbed := by
  have changed : Reachable moody 0 stubbing := reachable_fresh.step (.change _ rfl)
  exact changed.steps (run_stepped rfl)

/-- The published boundary is the position of one trampoline and the leading one that of the other.
The frame outside them has not been processed and counts as safe. -/
theorem holdsStops_of_stubbed :
    (∃ f ∈ stubbedFrames, f.trampoline = true ∧ f.position = stubbed.sweep.published.boundary) ∧
    (stubbed.sweep.lastBoundary moody stubbed.world).1 = ⟨95⟩ ∧
    ⟨2, ⟨30⟩, true, false⟩ ∉
      (attempts 0 stubbed.world.log).flatMap (fun a => processedIn a.visits) ∧
    (stubbed.sweep.isSafe moody ⟨2, ⟨30⟩, true, false⟩ stubbed.world).1 = true := by
  obtain ⟨stops, -, -⟩ := holdsStops_of_reachable reachable_stubbed
  have boundary : stubbed.sweep.published.boundary = ⟨90⟩ := by decide +kernel
  have walked : ∀ a ∈ attempts 0 stubbed.world.log, ∀ fs, a.snapshot = some fs →
      fs = stubbedFrames := by
    decide +kernel
  have owned := stops.published _ (List.mem_of_mem_head? stops.latest)
  refine ⟨?_, by decide +kernel, by decide +kernel, by decide +kernel⟩
  rcases owned with none | ⟨a, ha, -, -, none | ⟨fs, f, hs, hf, -, hp⟩⟩
  · rw [boundary] at none
    cases none
  · rw [boundary] at none
    cases none
  · rw [walked a ha fs hs] at hf
    refine ⟨f, hf, ?_, hp⟩
    rw [boundary] at hp
    revert f
    decide +kernel

end Site

end StackSweep
