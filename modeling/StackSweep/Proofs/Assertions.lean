import StackSweep.Proofs.Buffer
import StackSweep.Proofs.Starting

/-!
# Assertions that hold

Three things are taken for granted while a sweep is moved on: a walk that is asked for its next
frame has one, a batch meets no frame inside the region that it takes for processed, and a walk with
frames left has a boundary to publish. As long as no position is missing and none is smaller than
those further in, all three are true at any time, whatever failed or unwound before. An operation
then only unwinds because the processor did.
-/

namespace StackSweep

/-- No position is missing, and none is smaller than those further in. -/
def Rising (frames : List Frame) : Prop :=
  (∀ f ∈ frames, 0 < f.position.addr) ∧
    frames.Pairwise fun f g => f.position.addr ≤ g.position.addr

instance : DecidablePred Rising := fun frames =>
  inferInstanceAs (Decidable ((∀ f ∈ frames, 0 < f.position.addr) ∧
    frames.Pairwise fun f g => f.position.addr ≤ g.position.addr))

theorem Ascending.rising {fs : List Frame} (asc : Ascending fs) : Rising fs :=
  ⟨asc.1, asc.2.imp Nat.le_of_lt⟩

theorem Rising.of_suffix {fs gs : List Frame} (rising : Rising gs) (suffix : fs <:+ gs) :
    Rising fs :=
  ⟨fun f hf => rising.1 f (suffix.subset hf), rising.2.sublist suffix.sublist⟩

variable {ς ε : Type}

namespace Trail

theorem leading_record_le {t : Trail} {p q : Position} (led : t.leading.addr ≤ q.addr)
    (le : p.addr ≤ q.addr) : (t.record p).leading.addr ≤ q.addr := by
  unfold record
  split
  · exact led
  · split <;> exact le

end Trail

namespace Walk

/-! ## Loops that check -/

section checked

variable (h : Host ς ε) (sh : Shared)

/-- The frames of a step, each of which is asked of the walk. -/
def stepLoop (last : Position) (k : Walk) (w : World ς) :
    Outcome ε Unit × Position × Walk × World ς :=
  if _more : k.hasNext then
    match k.current with
    | .error x => (.unwound x, last, k, w)
    | .ok (f, registers) =>
      match h.visit ⟨f, registers, sh.context, sh.published⟩ w with
      | (.ok (), w') =>
        if h.hasBarrier f w then (.ok (), f.position, k.advance, w')
        else stepLoop f.position k.advance w'
      | (.failed e, w') => (.failed e, last, k, w')
      | (.unwound x, w') => (.unwound x, last, k, w')
  else (.ok (), last, k, w)
termination_by k.ahead.length
decreasing_by
  have some := List.length_pos_iff.2 (hasNext_iff.1 _more)
  simp only [advance, List.length_tail]
  omega

/-- A step that checks whether there is a frame whenever it asks for one. -/
def stepChecked (k : Walk) (w : World ς) : Outcome ε Unit × Walk × World ς :=
  let (b, w) := Bracket.enter w
  let (o, last, k, w) := stepLoop h sh .none k w
  (o, if last.isNone then k else k.record last, b.leave w)

/-- The frames of a batch, each of which is asked of the walk. -/
def batchLoop (interval seen : Nat) (k : Walk) (w : World ς) :
    Outcome ε BatchEnd × Walk × World ς :=
  if _more : k.hasNext then
    match k.current with
    | .error x => (.unwound x, k, w)
    | .ok (f, registers) =>
      if f.position.isInner k.trail.leading then
        (.unwound (.insideProcessed f.position k.trail.leading), k, w)
      else
        match h.visit ⟨f, registers, sh.context, sh.published⟩ w with
        | (.ok (), w') =>
          if h.hasBarrier f w then
            if seen + 1 = interval then (.ok .interval, k.advance.record f.position, w')
            else batchLoop interval (seen + 1) (k.advance.record f.position) w'
          else batchLoop interval seen k.advance w'
        | (.failed e, w') => (.failed e, k, w')
        | (.unwound x, w') => (.unwound x, k, w')
  else (.ok .exhausted, k, w)
termination_by k.ahead.length
decreasing_by
  all_goals
    have some := List.length_pos_iff.2 (hasNext_iff.1 _more)
    simp only [ahead_record, advance, List.length_tail]
    omega

/-- A batch that checks whether there is a frame whenever it asks for one. -/
def batchChecked (interval : Nat) (k : Walk) (w : World ς) :
    Outcome ε BatchEnd × Walk × World ς :=
  let (b, w) := Bracket.enter w
  let (o, k, w) := batchLoop h sh interval 0 k w
  (o, k, b.leave w)

variable {h sh}

theorem stepLoop_eq (fs : List Frame) :
    ∀ (last : Position) (cursor : Nat) (t : Trail) (w : World ς),
      stepLoop h sh last ⟨cursor, fs, t⟩ w =
        let r := stepFrames h sh last cursor fs w
        (r.outcome, r.last, ⟨r.cursor, r.ahead, t⟩, r.world) := by
  induction fs with
  | nil =>
    intro last cursor t w
    unfold stepLoop
    rfl
  | cons f rest ih =>
    intro last cursor t w
    unfold stepLoop stepFrames
    rw [dif_pos (hasNext_mk_cons cursor f rest t)]
    simp only [current]
    generalize h.visit ⟨f, cursor, sh.context, sh.published⟩ w = r
    obtain ⟨o, w'⟩ := r
    cases o with
    | failed e => rfl
    | unwound x => rfl
    | ok _ =>
      simp only
      split
      · rfl
      · exact ih f.position (cursor + 1) t w'

theorem batchLoop_eq (interval : Nat) (fs : List Frame) :
    ∀ (seen cursor : Nat) (t : Trail) (w : World ς),
      batchLoop h sh interval seen ⟨cursor, fs, t⟩ w =
        batchFrames h sh interval seen cursor t fs w := by
  induction fs with
  | nil =>
    intro seen cursor t w
    unfold batchLoop
    rfl
  | cons f rest ih =>
    intro seen cursor t w
    unfold batchLoop batchFrames
    rw [dif_pos (hasNext_mk_cons cursor f rest t)]
    simp only [current, advance, List.tail_cons]
    generalize h.visit ⟨f, cursor, sh.context, sh.published⟩ w = r
    obtain ⟨o, w'⟩ := r
    split
    · rfl
    · cases o with
      | failed e => rfl
      | unwound x => rfl
      | ok _ =>
        simp only
        split
        · split
          · rfl
          · rw [← ih, mk_trail_record]
        · exact ih seen (cursor + 1) t w'

/-- A walk has a frame whenever a step asks for one. -/
theorem stepChecked_eq (k : Walk) (w : World ς) : k.stepChecked h sh w = k.step h sh w := by
  unfold stepChecked step
  simp only [stepLoop_eq k.ahead .none k.cursor k.trail]

/-- A walk has a frame whenever a batch asks for one. -/
theorem batchChecked_eq (interval : Nat) (k : Walk) (w : World ς) :
    k.batchChecked h sh interval w = k.batch h sh interval w := by
  unfold batchChecked batch
  simp only [batchLoop_eq interval k.ahead 0 k.cursor k.trail]

end checked

/-! ## Walks over rising positions -/

/-- No frame ahead lies inside the leading boundary, nor does any that comes later. -/
structure IsSteady (k : Walk) : Prop where
  rising : Rising k.ahead
  clear : ∀ f ∈ k.ahead, k.trail.leading.addr ≤ f.position.addr

/-- There is a boundary to publish as long as frames are left. -/
def HasTrail (k : Walk) : Prop := k.ahead ≠ [] → 0 < k.trail.trailing.addr

variable {h : Host ς ε} {k : Walk} {p : Position}

theorem isSteady_ofFrames {fs : List Frame} (rising : Rising fs) : (ofFrames fs).IsSteady :=
  ⟨rising, fun _ _ => Nat.zero_le _⟩

theorem IsSteady.record (steady : k.IsSteady) (le : ∀ f ∈ k.ahead, p.addr ≤ f.position.addr) :
    (k.record p).IsSteady := by
  unfold Walk.record
  split
  · exact ⟨steady.rising, fun f hf => Trail.leading_record_le (steady.clear f hf) (le f hf)⟩
  · exact steady

theorem hasTrail_record (k : Walk) (hp : 0 < p.addr) : (k.record p).HasTrail := by
  intro left
  rw [ahead_record] at left
  unfold record
  rw [if_pos (hasNext_iff.2 left)]
  exact k.trail.trailing_record_pos hp

/-- No frame that a step leaves lies inside the last one that it has passed, and a step that
succeeds passes one if there is any. -/
theorem stepFrames_last (h : Host ς ε) (sh : Shared) (fs : List Frame) :
    ∀ (last : Position) (cursor : Nat) (w : World ς), Rising fs →
      (∀ f ∈ fs, last.addr ≤ f.position.addr) →
      (∀ f ∈ (stepFrames h sh last cursor fs w).ahead,
        (stepFrames h sh last cursor fs w).last.addr ≤ f.position.addr) ∧
      ((stepFrames h sh last cursor fs w).outcome = .ok () → fs ≠ [] ∨ 0 < last.addr →
        0 < (stepFrames h sh last cursor fs w).last.addr) := by
  induction fs with
  | nil => exact fun last _ _ _ _ => ⟨nofun, fun _ some => some.resolve_left fun other => other rfl⟩
  | cons f rest ih =>
    intro last cursor w rising le
    have first := rising.1 f List.mem_cons_self
    have beyond := (List.pairwise_cons.1 rising.2).1
    unfold stepFrames
    split
    · split
      · exact ⟨beyond, fun _ _ => first⟩
      · obtain ⟨clear, passed⟩ := ih f.position (cursor + 1) ‹World ς›
          (rising.of_suffix (List.suffix_cons _ _)) beyond
        exact ⟨clear, fun ok _ => passed ok (.inr first)⟩
    · exact ⟨le, nofun⟩
    · exact ⟨le, nofun⟩

/-- A step keeps a walk steady. It does not lose the trail, and makes one if it succeeds. -/
theorem step_isSteady (sh : Shared) (steady : k.IsSteady) (w : World ς) :
    (k.step h sh w).2.1.IsSteady ∧ (k.HasTrail → (k.step h sh w).2.1.HasTrail) ∧
      ((k.step h sh w).1 = .ok () → (k.step h sh w).2.1.HasTrail) := by
  obtain ⟨passed, split, -⟩ :=
    stepFrames_passes h sh .none k.cursor k.ahead (Bracket.enter w).2
  obtain ⟨clear, forward⟩ := stepFrames_last h sh k.ahead .none k.cursor (Bracket.enter w).2
    steady.rising fun _ _ => Nat.zero_le _
  unfold step
  simp only
  generalize stepFrames h sh .none k.cursor k.ahead (Bracket.enter w).2 = r at split clear forward ⊢
  have suffix : r.ahead <:+ k.ahead := ⟨passed, split.symm⟩
  have left (more : r.ahead ≠ []) : k.ahead ≠ [] := by
    intro none
    rw [none] at suffix
    exact more (List.suffix_nil.1 suffix)
  have moved : (Walk.mk r.cursor r.ahead k.trail).IsSteady :=
    ⟨steady.rising.of_suffix suffix, fun f hf => steady.clear f (suffix.subset hf)⟩
  by_cases missing : r.last.isNone = true
  · simp only [missing, if_true]
    refine ⟨moved, fun trail more => trail (left more), ?_⟩
    intro ok more
    have := forward ok (.inl (left more))
    rw [Position.isNone_iff.1 missing] at this
    cases this
  · have found : 0 < r.last.addr :=
      Position.addr_pos_iff.2 fun none => missing (Position.isNone_iff.2 none)
    simp only [missing, Bool.false_eq_true, if_false]
    have trail := hasTrail_record (Walk.mk r.cursor r.ahead k.trail) found
    exact ⟨moved.record clear, fun _ => trail, fun _ => trail⟩

theorem steps_isSteady (sh : Shared) (n : Nat) : ∀ {k : Walk} (w : World ς), k.IsSteady →
    (steps h sh n k w).2.1.IsSteady ∧
      ((steps h sh n k w).1 = .ok () → 0 < n ∨ k.HasTrail → (steps h sh n k w).2.1.HasTrail) := by
  induction n with
  | zero =>
    intro k w steady
    exact ⟨steady, fun _ trail => trail.resolve_left (Nat.lt_irrefl 0)⟩
  | succ n ih =>
    intro k w steady
    have first := step_isSteady (h := h) sh steady w
    unfold steps
    split <;> rename_i k' w' eq <;> rw [eq] at first
    · obtain ⟨steady', -, trail⟩ := first
      obtain ⟨rest, ends⟩ := ih w' steady'
      exact ⟨rest, fun ok _ => ends ok (.inr (trail rfl))⟩
    · exact ⟨first.1, nofun⟩
    · exact ⟨first.1, nofun⟩

/-- A batch over a steady walk meets no frame inside the leading boundary, so it ends as its visits
do. -/
theorem batchFrames_isSteady (sh : Shared) (interval : Nat) (fs : List Frame) :
    ∀ (seen cursor : Nat) (t : Trail) (w : World ς), (Walk.mk cursor fs t).IsSteady →
      h.Ends w.log ((batchFrames h sh interval seen cursor t fs w).1.map fun _ => ())
        (batchFrames h sh interval seen cursor t fs w).2.2.log ∧
      (batchFrames h sh interval seen cursor t fs w).2.1.IsSteady ∧
      ((Walk.mk cursor fs t).HasTrail →
        (batchFrames h sh interval seen cursor t fs w).2.1.HasTrail) := by
  induction fs with
  | nil => exact fun _ _ _ _ steady => ⟨.thrived .refl nofun, steady, fun _ left => absurd rfl left⟩
  | cons f rest ih =>
    intro seen cursor t w steady
    have visit := h.ends_visit ⟨f, cursor, sh.context, sh.published⟩ w
    have outside : f.position.isInner t.leading = false := by
      rw [Bool.eq_false_iff, Ne, Position.isInner_iff]
      exact Nat.not_lt.2 (steady.clear f List.mem_cons_self)
    have advanced : (Walk.mk (cursor + 1) rest t).IsSteady :=
      ⟨steady.rising.of_suffix (List.suffix_cons _ _),
        fun g hg => steady.clear g (List.mem_cons_of_mem _ hg)⟩
    have recorded := advanced.record (List.pairwise_cons.1 steady.rising.2).1
    have trail := hasTrail_record (Walk.mk (cursor + 1) rest t)
      (steady.rising.1 f List.mem_cons_self)
    unfold batchFrames
    simp only [outside, Bool.false_eq_true, if_false]
    split <;> rename_i w' eq <;> rw [eq] at visit
    · split
      · split
        · exact ⟨visit, recorded, fun _ => trail⟩
        · rw [← mk_trail_record] at recorded trail
          obtain ⟨ends, kept, trails⟩ := ih (seen + 1) (cursor + 1) _ w' recorded
          exact ⟨visit.trans ends, kept, fun _ => trails trail⟩
      · obtain ⟨ends, kept, trails⟩ := ih seen (cursor + 1) t w' advanced
        exact ⟨visit.trans ends, kept, fun some => trails fun _ => some (List.cons_ne_nil _ _)⟩
    · exact ⟨visit, steady, id⟩
    · exact ⟨visit, steady, id⟩

theorem batch_isSteady (sh : Shared) (interval : Nat) (steady : k.IsSteady) (w : World ς) :
    h.Ends w.log ((k.batch h sh interval w).1.map fun _ => ()) (k.batch h sh interval w).2.2.log ∧
      (k.batch h sh interval w).2.1.IsSteady ∧
      (k.HasTrail → (k.batch h sh interval w).2.1.HasTrail) := by
  obtain ⟨ends, kept, trails⟩ :=
    batchFrames_isSteady sh interval k.ahead 0 k.cursor k.trail (Bracket.enter w).2 steady
  exact ⟨.around (Bracket.visited_enter w) ends (Bracket.visited_leave _ _), kept, trails⟩

end Walk

/-! ## Faults that the processor has raised -/

namespace Outcome

/-- What has unwound, if anything has. -/
def fault? {ε α : Type} : Outcome ε α → Option Fault
  | .unwound x => some x
  | _ => none

@[simp] theorem fault?_map {ε α β : Type} (f : α → β) (o : Outcome ε α) :
    (o.map f).fault? = o.fault? := by
  cases o <;> rfl

end Outcome

namespace Turn

/-- What has unwound, if anything has. -/
def fault? : Turn ε → Option Fault
  | .finished o => o.fault?
  | _ => none

end Turn

/-- After this log the processor unwound, and nothing but bookkeeping followed. -/
def Host.Raises (h : Host ς ε) (log : List Event) (x : Fault) (log' : List Event) : Prop :=
  ∃ v w, log <:+ w.log ∧ (h.visit v w).1 = .unwound x ∧ Visited (h.visit v w).2.log [] log'

/-- Where everything holds that is taken for granted of a sweep. -/
def Sweep.IsSound (s : Sweep) : Prop := ∀ k, s.walk = some k → k.IsSteady ∧ k.HasTrail

/-- The sweep is sound, and what has unwound on the way is the processor's doing. -/
structure Sweep.Fares (h : Host ς ε) (log : List Event) (fault : Option Fault) (s : Sweep)
    (log' : List Event) : Prop where
  sound : s.IsSound
  raised : ∀ x, fault = some x → h.Raises log x log'

section raises

variable {h : Host ς ε} {log log₁ log' log'' : List Event} {x : Fault}

theorem Host.Raises.after (raises : h.Raises log₁ x log') (suffix : log <:+ log₁) :
    h.Raises log x log' := by
  obtain ⟨v, w, since, unwound, asides⟩ := raises
  exact ⟨v, w, suffix.trans since, unwound, asides⟩

theorem Host.Raises.asides (raises : h.Raises log x log') (seen : Visited log' [] log'') :
    h.Raises log x log'' := by
  obtain ⟨v, w, since, unwound, asides⟩ := raises
  exact ⟨v, w, since, unwound, by simpa using asides.trans seen⟩

theorem Host.Ends.raises {o : Outcome ε Unit} (ends : h.Ends log o log')
    (unwound : o.fault? = some x) : h.Raises log x log' := by
  have ho : o = .unwound x := by
    cases o <;> cases unwound
    rfl
  obtain ⟨vs, v, w, seen, -, last, asides⟩ := ends.last (by simp [ho])
  exact ⟨v, w, seen.suffix, last.trans ho, asides⟩

end raises

namespace Sweep

variable {h : Host ς ε} {context : Option Nat} {s : Sweep} {w : World ς} {log : List Event}

theorem isSound_of_no_walk (hw : s.walk = none) : s.IsSound := by
  intro k hk
  rw [hw] at hk
  cases hk

theorem Fares.after {log₁ log' : List Event} {fault : Option Fault}
    (fares : Fares h log₁ fault s log') (suffix : log <:+ log₁) : Fares h log fault s log' :=
  ⟨fares.sound, fun x hx => (fares.raised x hx).after suffix⟩

theorem Fares.quiet {log' : List Event} (sound : s.IsSound) : Fares h log none s log' :=
  ⟨sound, nofun⟩

/-! ## Sound sweeps -/

/-- A sound sweep has a boundary to publish if it has frames left. -/
theorem publish_of_isSound (sound : s.IsSound) : (s.publish h w).1 = none := by
  unfold publish
  split
  · rename_i k hk
    split
    · rename_i left
      have found := Position.addr_pos_iff.1 ((sound k hk).2 (Walk.hasNext_iff.1 left))
      rw [if_neg fun missing => found (Position.isNone_iff.1 missing)]
    · rfl
  · rfl

theorem fares_conclude {o : Outcome ε Unit} (sound : s.IsSound)
    (raised : ∀ x, o.fault? = some x → h.Raises log x w.log) :
    Fares h log (s.conclude h o w).1.fault? (s.conclude h o w).2.1 (s.conclude h o w).2.2.log := by
  have published := publish_of_isSound (h := h) (w := w) sound
  have sound' : (s.publish h w).2.1.IsSound := by
    unfold IsSound
    rw [(publish_keeps h s w).1]
    exact sound
  unfold conclude
  split
  · exact ⟨sound, raised⟩
  · rename_i other
    split <;> rename_i eq <;> rw [eq] at published sound'
    · refine ⟨sound', ?_⟩
      intro x hx
      cases o with
      | unwound y => exact absurd rfl (other y)
      | ok _ => cases hx
      | failed _ => cases hx
    · cases published

theorem fares_conclude_of_quiet {o : Outcome ε Unit} (quiet : o.fault? = none)
    (sound : s.IsSound) :
    Fares h log (s.conclude h o w).1.fault? (s.conclude h o w).2.1 (s.conclude h o w).2.2.log := by
  refine fares_conclude sound ?_
  intro x hx
  rw [quiet] at hx
  cases hx

/-- If a start is due, the frames that it would walk over have rising positions. -/
def IsFit (h : Host ς ε) (s : Sweep) (w : World ς) : Prop :=
  s.isStale (w.readEpoch h.kind).1 = true →
    ∀ fs, snapshot? (w.readEpoch h.kind).2 = some fs → Rising fs

/-- The first steps of a campaign leave a boundary, because there are at least two of them. -/
theorem firstSteps_isSteady (context : Option Nat) (s : Sweep) (hv : h.pacing.Valid)
    (rising : ∀ fs, snapshot? w = some fs → Rising fs)
    (walkable : w.thread.hasWalkableStack = true) :
    (s.firstSteps h context w).2.1.IsSteady ∧
      ((s.firstSteps h context w).1 = .ok () → (s.firstSteps h context w).2.1.HasTrail) := by
  have steady := Walk.isSteady_ofFrames (rising w.thread.frames (by simp [snapshot?, walkable]))
  obtain ⟨kept, trail⟩ := Walk.steps_isSteady (h := h) ⟨context, s.published⟩
    h.pacing.initialFrames ((announced h w).walkStack .incremental).2 steady
  exact ⟨kept, fun ok => trail ok (.inl (Nat.lt_of_lt_of_le Nat.zero_lt_two hv.covers_buffer))⟩

theorem fares_start (hv : h.pacing.Valid) (rising : ∀ fs, snapshot? w = some fs → Rising fs) :
    Fares h w.log (s.start h context w).1.fault? (s.start h context w).2.1
      (s.start h context w).2.2.log := by
  cases s.departs h context w with
  | idle _ start =>
    rw [start]
    exact fares_conclude_of_quiet rfl (isSound_of_no_walk rfl)
  | begun k w' walkable steps start =>
    obtain ⟨kept, trail⟩ := firstSteps_isSteady context s hv rising walkable
    rw [steps] at kept trail
    rw [start]
    refine fares_conclude_of_quiet rfl ?_
    rintro _ ⟨⟩
    exact ⟨kept, trail rfl⟩
  | refused _ _ ended dropped asides =>
    refine ⟨isSound_of_no_walk (by rw [dropped]), ?_⟩
    intro x hx
    rw [ended] at hx
    have raised := (firstSteps_ends h context s w).raises hx
    exact (raised.asides asides).after ⟨[_, _, _], rfl⟩

theorem fares_ensureStarted (context : Option Nat) (hv : h.pacing.Valid) (sound : s.IsSound)
    (fit : s.IsFit h w) :
    Fares h w.log (s.ensureStarted h context w).1.fault? (s.ensureStarted h context w).2.1
      (s.ensureStarted h context w).2.2.log := by
  by_cases stale : s.isStale (w.readEpoch h.kind).1 = true
  · rw [ensureStarted_of_stale h context stale]
    exact (fares_start hv (fit stale)).after (List.suffix_cons _ _)
  · rw [Bool.not_eq_true] at stale
    unfold ensureStarted
    simp only [stale, Bool.false_eq_true, if_false]
    exact .quiet sound

theorem fares_increment (hv : h.pacing.Valid) (sound : s.IsSound) (fit : s.IsFit h w) :
    Fares h w.log (s.increment h w).1.fault? (s.increment h w).2.1 (s.increment h w).2.2.log := by
  by_cases stale : s.isStale (w.readEpoch h.kind).1 = true
  · rw [increment_of_stale h stale]
    exact (fares_start hv (fit stale)).after (List.suffix_cons _ _)
  · rw [Bool.not_eq_true] at stale
    unfold increment
    simp only [stale, Bool.false_eq_true, if_false]
    split
    · exact .quiet sound
    · rename_i k hk
      obtain ⟨steady, trail⟩ := sound k hk
      obtain ⟨kept, trails, -⟩ := Walk.step_isSteady (h := h) ⟨none, s.published⟩ steady
        (w.readEpoch h.kind).2
      have ends := k.step_ends h ⟨none, s.published⟩ (w.readEpoch h.kind).2
      refine fares_conclude ?_ ?_
      · rintro _ ⟨⟩
        exact ⟨kept, trails trail⟩
      · intro x hx
        exact (ends.raises hx).after (List.suffix_cons _ _)

theorem fault?_ended (r : Outcome ε Unit × Sweep × World ς) :
    (Stage.ended r).1.fault? = r.1.fault? :=
  Outcome.fault?_map _ r.1

theorem fares_drainBatch (sound : s.IsSound) :
    Fares h w.log (Stage.drainBatch h context s w).1.fault? (Stage.drainBatch h context s w).2.1
      (Stage.drainBatch h context s w).2.2.log := by
  unfold Stage.drainBatch
  split
  · rw [fault?_ended]
    exact fares_conclude_of_quiet rfl sound
  · rename_i k hk
    obtain ⟨steady, trail⟩ := sound k hk
    obtain ⟨ends, kept, trails⟩ := Walk.batch_isSteady (h := h) ⟨context, s.published⟩
      h.pacing.framesPerYield steady w
    generalize k.batch h ⟨context, s.published⟩ h.pacing.framesPerYield w = r at ends kept trails ⊢
    have sound' : IsSound { s with walk := some r.2.1 } := by
      rintro _ ⟨⟩
      exact ⟨kept, trails trail⟩
    split <;> rename_i k' w'
    · have published := publish_of_isSound (h := h) (w := w') sound'
      have walk := (publish_keeps h { s with walk := some k' } w').1
      split <;> rename_i eq <;> rw [eq] at published walk
      · refine ⟨?_, nofun⟩
        unfold IsSound
        rw [walk]
        exact sound'
      · cases published
    · rw [fault?_ended]
      exact fares_conclude_of_quiet rfl sound'
    · rw [fault?_ended]
      exact fares_conclude_of_quiet rfl sound'
    · exact ⟨sound', fun x hx => ends.raises hx⟩

theorem fares_drainFirst (hv : h.pacing.Valid) (sound : s.IsSound) (fit : s.IsFit h w) :
    Fares h w.log (Stage.drainFirst h context s w).1.fault? (Stage.drainFirst h context s w).2.1
      (Stage.drainFirst h context s w).2.2.log := by
  have started := fares_ensureStarted context hv sound fit
  have suffix := (turns_ensureStarted h hv context s w .refl .rest).suffix
  unfold Stage.drainFirst
  generalize s.ensureStarted h context w = r at started suffix ⊢
  obtain ⟨o, s₁, w₁⟩ := r
  cases o with
  | failed e => exact started
  | unwound x => exact started
  | ok _ =>
    simp only
    split
    · rw [fault?_ended]
      exact fares_conclude_of_quiet rfl started.sound
    · exact (fares_drainBatch started.sound).after (suffix.trans (List.suffix_cons _ _))

/-- Whatever a turn does, it finds a sound sweep and leaves one, and it unwinds only if the
processor does. -/
theorem fares_turn (hv : h.pacing.Valid) (sound : s.IsSound) (stage : Stage)
    (fit : stage.context? ≠ none → s.IsFit h w) :
    Fares h w.log (stage.turn h s w).1.fault? (stage.turn h s w).2.1
      (stage.turn h s w).2.2.log := by
  have look : Fares h w.log none s (w.readEpoch h.kind).2.log := .quiet sound
  cases stage with
  | increment =>
    have fares := fares_increment hv sound (fit (Option.some_ne_none _))
    rwa [← fault?_ended] at fares
  | start =>
    have fares := fares_ensureStarted none hv sound (fit (Option.some_ne_none _))
    rwa [← fault?_ended] at fares
  | drain context => exact fares_drainFirst hv sound (fit (Option.some_ne_none _))
  | resume context => exact fares_drainBatch sound
  | secure f =>
    simp only [Stage.turn]
    split <;> exact look
  | approach f =>
    have fares := fares_increment hv sound (fit (Option.some_ne_none _))
    simp only [Stage.turn]
    generalize s.increment h w = r at fares ⊢
    obtain ⟨o, s', w'⟩ := r
    cases o <;> exact fares
  | judge f => exact look
  | locate => exact look

/-- If every stack that was walked up to the end of a turn has rising positions, this is true of the
one that the turn may walk. -/
theorem isFit_of_rising {stage : Stage} (starts : stage.context? ≠ none)
    (rising : ∀ fs ∈ walked (stage.turn h s w).2.2.log, Rising fs) : s.IsFit h w := by
  intro stale fs hfs
  obtain ⟨context, hc⟩ := Option.ne_none_iff_exists'.1 starts
  obtain ⟨-, -, log, asides, moves⟩ := turn_of_stale h (w := w) hc stale
  refine rising fs ?_
  rw [moves.walked_eq, asides.walked_eq, walked_start]
  exact List.mem_append_left _ (Option.mem_toList.2 hfs)

end Sweep

namespace Site

variable {h : Host ς ε} {birth : Epoch} {site : Site ς}

theorem Reachable.isSound (r : Reachable h birth site)
    (rising : ∀ fs ∈ walked site.world.log, Rising fs) : site.sweep.IsSound := by
  induction r with
  | created => exact Sweep.isSound_of_no_walk rfl
  | @step site site' r st ih =>
    have sound := ih fun fs hfs => rising fs ((walked_suffix (st.suffix r.valid)).subset hfs)
    cases st with
    | change w _ => exact sound
    | call p c _ => exact sound
    | turn p b _ =>
      exact (Sweep.fares_turn r.valid sound b.stage fun starts =>
        Sweep.isFit_of_rising starts rising).sound

/-- As long as positions rise along all stacks that are walked, no operation unwinds unless the
processor has, and then by the same fault. So no batch meets a frame inside the leading boundary,
and there is a boundary whenever one is published. Neither a step nor a batch ever asks for a frame
that there is not: to check would not make a difference. -/
theorem raises_of_reachable (r : Reachable h birth site) (stage : Stage)
    (rising : ∀ fs ∈ walked (stage.turn h site.sweep site.world).2.2.log, Rising fs) :
    (∀ x, (stage.turn h site.sweep site.world).1 = .finished (.unwound x) →
      h.Raises site.world.log x (stage.turn h site.sweep site.world).2.2.log) ∧
    ∀ (sh : Walk.Shared) (k : Walk) (w : World ς), k.stepChecked h sh w = k.step h sh w ∧
      ∀ n, k.batchChecked h sh n w = k.batch h sh n w := by
  constructor
  · intro x unwound
    have suffix := (Sweep.turns_turn h r.valid stage site.sweep site.world).suffix
    have sound := r.isSound fun fs hfs => rising fs ((walked_suffix suffix).subset hfs)
    refine (Sweep.fares_turn r.valid sound stage fun starts =>
      Sweep.isFit_of_rising starts rising).raised x ?_
    rw [unwound]
    rfl
  · exact fun sh k w => ⟨Walk.stepChecked_eq k w, fun n => Walk.batchChecked_eq n k w⟩

/-- A processor that gives up at every frame while it is told to. -/
def brittle : Host Bool String :=
  { moody with process := fun _ w => (if w.rest then .unwound (.raised "gave up") else .ok (), w) }

/-- All frames but the innermost have one position. -/
def levelFrames : List Frame :=
  [⟨0, ⟨10⟩, true, false⟩, ⟨1, ⟨20⟩, true, false⟩, ⟨2, ⟨20⟩, true, false⟩, ⟨3, ⟨20⟩, true, false⟩]

/-- The epoch moves on when these are the frames of the thread. -/
def leveled : Site Bool :=
  { fresh with world := { fresh.world with
      thread := { fresh.world.thread with stack := some levelFrames }
      epochs := .cells [1] } }

/-- A drain has yielded, and now the processor is told to give up. -/
def strained : Site Bool :=
  ((leveled.call brittle 0 (.drain none)).turn brittle 0 ⟨.drain none, leveled.world.log⟩).moveOn
    1 true

theorem reachable_strained : Reachable brittle 0 strained := by
  have made : Reachable brittle 0 fresh :=
    .created
      (w := .ofThread ⟨1, some fourFrames, true, 0, false, 0, 0, none, false⟩ (.cells [0]) false)
      rfl rfl
  have changed : Reachable brittle 0 leveled := made.step (.change _ rfl)
  exact ((changed.step (.call 0 (.drain none) rfl)).step (.turn 0 _ rfl)).step (.change _ rfl)

/-- The frame that comes next lies at the leading boundary. The drain tries it, and it is the
processor that gives up. -/
theorem raises_of_strained :
    strained.sweep.walk = some ⟨3, [⟨3, ⟨20⟩, true, false⟩], ⟨⟨20⟩, ⟨20⟩⟩⟩ ∧
    brittle.Raises strained.world.log (.raised "gave up")
      ((Stage.resume none).turn brittle strained.sweep strained.world).2.2.log := by
  have raises := (raises_of_reachable reachable_strained (.resume none) (by decide +kernel)).1
  exact ⟨by decide +kernel, raises (.raised "gave up") rfl⟩

end Site

end StackSweep
