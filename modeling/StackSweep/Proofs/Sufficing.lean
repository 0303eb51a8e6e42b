import StackSweep.Proofs.Securing

/-!
# Just enough frames

How much of a stack is processed when a frame is secured for a campaign that has not been started.
Every step ends at a barrier, so that the walk can only stop there or at the end of the stack. The
start takes its first steps, and then it is one step at a time until the last barrier lies beyond
the frame. What has been processed by then is the shortest part of the stack for which that is so.
-/

namespace StackSweep

variable {ς ε : Type}

/-- There are at least `n` frames with a barrier, and the last frame is one that lies beyond `p`. -/
def Suffices (barrier : Frame → Bool) (n : Nat) (p : Position) (fs : List Frame) : Prop :=
  n ≤ fs.countP barrier ∧ ∃ ys g, fs = ys ++ [g] ∧ barrier g = true ∧ p.addr < g.position.addr

instance (barrier : Frame → Bool) (n : Nat) (p : Position) (fs : List Frame) :
    Decidable (Suffices barrier n p fs) :=
  decidable_of_iff (n ≤ fs.countP barrier ∧
      ∃ g ∈ fs.getLast?, barrier g = true ∧ p.addr < g.position.addr) <| by
    simp only [Suffices, Option.mem_def, List.getLast?_eq_some_iff]
    constructor
    · rintro ⟨count, g, ⟨ys, split⟩, found⟩
      exact ⟨count, ys, g, split, found⟩
    · rintro ⟨count, ys, g, split, found⟩
      exact ⟨count, g, ⟨ys, split⟩, found⟩

/-- The shortest part of the stack, from the innermost frame on, that is enough, or the whole stack
if no part is. -/
structure IsJustEnough (enough : List Frame → Prop) (fs part : List Frame) : Prop where
  within : part <+: fs
  met : enough part ∨ part = fs
  shortest : ∀ other, other <+: fs → enough other → part.length ≤ other.length

/-- No smaller part is enough. -/
def IsFirst (enough : List Frame → Prop) (part : List Frame) : Prop :=
  ∀ other, other <+: part → other ≠ part → ¬ enough other

theorem IsFirst.isJustEnough {enough : List Frame → Prop} {fs part : List Frame}
    (first : IsFirst enough part) (within : part <+: fs) (met : enough part ∨ part = fs) :
    IsJustEnough enough fs part := by
  refine ⟨within, met, ?_⟩
  intro other within' holds
  by_contra shorter
  have inside := List.prefix_of_prefix_length_le within' within (by omega)
  refine first other inside ?_ holds
  rintro rfl
  exact shorter (Nat.le_refl _)

/-- What comes before the last element of a list holds every part of it but the whole. -/
theorem prefix_dropLast {part fs : List Frame} (within : part <+: fs) (ne : part ≠ fs) :
    part <+: fs.dropLast := by
  rw [List.dropLast_eq_take, List.prefix_take_iff]
  refine ⟨within, ?_⟩
  have le := within.length_le
  have lt : part.length ≠ fs.length := fun same => ne (within.eq_of_length same)
  omega

/-- A part of two lists in a row is one of the first, or the whole of the first and a part of the
second. -/
theorem prefix_append_cases {part fs gs : List Frame} (within : part <+: fs ++ gs) :
    part <+: fs ∨ ∃ mid, part = fs ++ mid ∧ mid <+: gs := by
  rcases List.prefix_or_prefix_of_prefix within (List.prefix_append fs gs) with inside | ⟨mid, rfl⟩
  · exact .inl inside
  · exact .inr ⟨mid, rfl, (List.prefix_append_right_inj fs).1 within⟩

namespace Walk

variable {barrier : Frame → Bool} {k : Walk} {n : Nat} {passed part : List Frame}

/-! ## Steps over barriers -/

/-- The frames that a step passes: only the last of them has a barrier, and it does if frames are
left. -/
theorem framesOver_passes (barrier : Frame → Bool) (fs : List Frame) :
    ∀ (last : Position) (cursor : Nat), ∃ passed,
      fs = passed ++ (framesOver barrier last cursor fs).2.2 ∧
      (∀ f ∈ passed.dropLast, barrier f = false) ∧
      ((framesOver barrier last cursor fs).2.2 ≠ [] → ∃ ys g, passed = ys ++ [g] ∧
        barrier g = true ∧ (framesOver barrier last cursor fs).1 = g.position) := by
  induction fs with
  | nil => exact fun _ _ => ⟨[], rfl, by simp, fun left => absurd rfl left⟩
  | cons f rest ih =>
    intro last cursor
    unfold framesOver
    split
    · exact ⟨[f], rfl, by simp, fun _ => ⟨[], f, rfl, ‹_›, rfl⟩⟩
    · rename_i plain
      rw [Bool.not_eq_true] at plain
      obtain ⟨passed, split, before, stop⟩ := ih f.position (cursor + 1)
      refine ⟨f :: passed, congrArg (f :: ·) split, ?_, ?_⟩
      · cases passed with
        | nil => simp
        | cons g gs => exact List.forall_mem_cons.2 ⟨plain, before⟩
      · intro left
        obtain ⟨ys, g, rfl, found, same⟩ := stop left
        exact ⟨f :: ys, g, rfl, found, same⟩

theorem stepOver_passes (barrier : Frame → Bool) (k : Walk)
    (pos : ∀ f ∈ k.ahead, 0 < f.position.addr) : ∃ passed,
      k.ahead = passed ++ (k.stepOver barrier).ahead ∧
      (∀ f ∈ passed.dropLast, barrier f = false) ∧
      ((k.stepOver barrier).ahead ≠ [] → ∃ ys g, passed = ys ++ [g] ∧ barrier g = true ∧
        (k.stepOver barrier).trail = k.trail.record g.position) := by
  obtain ⟨passed, split, before, stop⟩ := framesOver_passes barrier k.ahead .none k.cursor
  unfold stepOver
  generalize framesOver barrier .none k.cursor k.ahead = r at split stop ⊢
  obtain ⟨last, cursor, ahead⟩ := r
  refine ⟨passed, ?_, before, ?_⟩
  · rw [split]
    dsimp only
    split
    · rfl
    · rw [ahead_record]
  · intro left
    have left' : ahead ≠ [] := by
      dsimp only at left
      split at left
      · exact left
      · rwa [ahead_record] at left
    obtain ⟨ys, g, rfl, found, same⟩ := stop left'
    obtain rfl : last = g.position := same
    have beyond : g.position.isNone = false := by
      rw [Bool.eq_false_iff, Ne, Position.isNone_iff]
      exact Position.addr_pos_iff.1 (pos g (split ▸ by simp))
    have more : (Walk.mk cursor ahead k.trail).hasNext = true := hasNext_iff.2 left'
    refine ⟨ys, g, rfl, found, ?_⟩
    simp only [beyond, Walk.record, more, Bool.false_eq_true, if_false, if_true]

/-- The walk stands behind at least `n` barriers. The last frame that it has passed has one and is
the leading boundary. -/
structure HasStopped (barrier : Frame → Bool) (n : Nat) (part : List Frame) (k : Walk) : Prop where
  count : n ≤ part.countP barrier
  trailing : 0 < k.trail.trailing.addr
  leading : ∃ ys g, part = ys ++ [g] ∧ barrier g = true ∧ k.trail.leading = g.position

theorem HasStopped.step (stopped : k.HasStopped barrier n part)
    (pos : ∀ f ∈ k.ahead, 0 < f.position.addr) (left : (k.stepOver barrier).ahead ≠ [])
    (split : k.ahead = passed ++ (k.stepOver barrier).ahead) :
    (k.stepOver barrier).HasStopped barrier n (part ++ passed) := by
  obtain ⟨passed', split', -, stop⟩ := stepOver_passes barrier k pos
  cases List.append_cancel_right (split.symm.trans split')
  obtain ⟨ys, g, rfl, found, trail⟩ := stop left
  refine ⟨?_, ?_, part ++ ys, g, (List.append_assoc _ _ _).symm, found, ?_⟩
  · rw [List.countP_append]
    exact Nat.le_add_right_of_le stopped.count
  · rw [trail]
    exact k.trail.trailing_record_pos (pos g (split ▸ by simp))
  · rw [trail]
    exact Trail.leading_record stopped.trailing g.position

/-- With `n` steps the walk has passed these frames. They have up to `n` barriers, and a smaller
part of them has fewer. -/
structure HasCrossed (barrier : Frame → Bool) (n : Nat) (part : List Frame) (k : Walk) : Prop where
  most : part.countP barrier ≤ n
  first : ∀ other, other <+: part → other ≠ part → other.countP barrier < n
  count : k.ahead ≠ [] → n ≤ part.countP barrier
  trailing : k.ahead ≠ [] → 0 < n → 0 < k.trail.trailing.addr
  leading : k.ahead ≠ [] → 1 < n →
    ∃ ys g, part = ys ++ [g] ∧ barrier g = true ∧ k.trail.leading = g.position

theorem countP_eq_zero_of_dropLast (plain : ∀ f ∈ passed.dropLast, barrier f = false)
    (within : part <+: passed.dropLast) : part.countP barrier = 0 := by
  rw [List.countP_eq_zero]
  intro f hf barred
  rw [plain f (within.subset hf)] at barred
  cases barred

/-- Where only the last frame has a barrier there is at most one. -/
theorem countP_le_one_of_dropLast (plain : ∀ f ∈ passed.dropLast, barrier f = false) :
    passed.countP barrier ≤ 1 := by
  rcases List.eq_nil_or_concat passed with rfl | ⟨ys, g, rfl⟩
  · exact Nat.zero_le _
  · rw [List.concat_eq_append] at plain ⊢
    have none := countP_eq_zero_of_dropLast plain (List.prefix_refl _)
    rw [List.dropLast_concat] at none
    rw [List.countP_append, none, Nat.zero_add]
    exact List.countP_le_length

theorem HasCrossed.step (crossed : k.HasCrossed barrier n part)
    (pos : ∀ f ∈ k.ahead, 0 < f.position.addr) : ∃ passed,
      k.ahead = passed ++ (k.stepOver barrier).ahead ∧
      (k.stepOver barrier).HasCrossed barrier (n + 1) (part ++ passed) := by
  obtain ⟨passed, split, plain, stop⟩ := stepOver_passes barrier k pos
  have more (left : (k.stepOver barrier).ahead ≠ []) : k.ahead ≠ [] := by
    rw [split]
    exact List.append_ne_nil_of_right_ne_nil _ left
  refine ⟨passed, split, ?_, ?_, ?_, ?_, ?_⟩
  · rw [List.countP_append]
    exact Nat.add_le_add crossed.most (countP_le_one_of_dropLast plain)
  · intro other within ne
    rw [Nat.lt_succ_iff]
    rcases prefix_append_cases within with inside | ⟨mid, rfl, inside⟩
    · exact Nat.le_trans (inside.sublist.countP_le) crossed.most
    · have before := prefix_dropLast inside fun same => ne (congrArg (part ++ ·) same)
      rw [List.countP_append, countP_eq_zero_of_dropLast plain before]
      exact crossed.most
  · intro left
    obtain ⟨ys, g, rfl, found, -⟩ := stop left
    have one : 1 ≤ (ys ++ [g]).countP barrier := by
      rw [List.countP_append, List.countP_singleton, if_pos found]
      exact Nat.le_add_left 1 _
    rw [List.countP_append]
    exact Nat.add_le_add (crossed.count (more left)) one
  · intro left _
    obtain ⟨ys, g, rfl, -, trail⟩ := stop left
    rw [trail]
    exact k.trail.trailing_record_pos (pos g (split ▸ by simp))
  · intro left some
    obtain ⟨ys, g, rfl, found, trail⟩ := stop left
    refine ⟨part ++ ys, g, (List.append_assoc _ _ _).symm, found, ?_⟩
    rw [trail]
    exact Trail.leading_record (crossed.trailing (more left) (by omega)) g.position

/-- The first steps over a stack. -/
theorem exists_hasCrossed (barrier : Frame → Bool) {fs : List Frame}
    (pos : ∀ f ∈ fs, 0 < f.position.addr) (n : Nat) : ∃ part,
      part ++ ((stepOver barrier)^[n] (ofFrames fs)).ahead = fs ∧
      ((stepOver barrier)^[n] (ofFrames fs)).HasCrossed barrier n part := by
  induction n with
  | zero =>
    refine ⟨[], rfl, Nat.zero_le _, ?_, fun _ => Nat.zero_le _, nofun, nofun⟩
    exact fun other within ne => absurd (List.prefix_nil.1 within) ne
  | succ n ih =>
    obtain ⟨part, whole, crossed⟩ := ih
    rw [Function.iterate_succ_apply']
    obtain ⟨passed, split, crossed'⟩ :=
      crossed.step fun f hf => pos f (whole ▸ List.mem_append_right _ hf)
    refine ⟨part ++ passed, ?_, crossed'⟩
    rw [List.append_assoc, ← split]
    exact whole

end Walk

variable {barrier : Frame → Bool} {n : Nat} {p : Position}

/-- A walk that has stopped at a barrier which does not lie beyond `p` has to go on. -/
theorem Walk.HasStopped.not_suffices {k : Walk} {part : List Frame}
    (stopped : k.HasStopped barrier n part) (le : k.trail.leading.addr ≤ p.addr) :
    ¬ Suffices barrier n p part := by
  rintro ⟨-, ys, g, rfl, -, beyond⟩
  obtain ⟨ys', g', same, -, leading⟩ := stopped.leading
  obtain ⟨-, ⟨⟩⟩ := List.append_inj' same rfl
  rw [leading] at le
  omega

/-- If only the last of the frames that are passed next has a barrier, nothing in between is enough.
-/
theorem IsFirst.append {part passed : List Frame} (first : IsFirst (Suffices barrier n p) part)
    (short : ¬ Suffices barrier n p part) (plain : ∀ f ∈ passed.dropLast, barrier f = false) :
    IsFirst (Suffices barrier n p) (part ++ passed) := by
  intro other within ne enough
  have inside (inside : other <+: part) : False := by
    by_cases same : other = part
    · exact short (same ▸ enough)
    · exact first other inside same enough
  rcases prefix_append_cases within with inner | ⟨mid, rfl, inner⟩
  · exact inside inner
  · have before := prefix_dropLast inner fun same => ne (congrArg (part ++ ·) same)
    rcases List.eq_nil_or_concat mid with rfl | ⟨ms, g, rfl⟩
    · exact inside (by simp)
    · obtain ⟨-, ys, g', same, barred, -⟩ := enough
      rw [List.concat_eq_append] at same before
      rw [← List.append_assoc] at same
      obtain ⟨-, ⟨⟩⟩ := List.append_inj' same rfl
      rw [plain g (before.subset (by simp))] at barred
      cases barred

/-! ## The loop over barriers -/

namespace Sweep

/-- The walk over these frames is under way to a barrier beyond `p`. It is published where it
stands, and no smaller part than what it has passed is enough. -/
structure IsOnTheWay (barrier : Frame → Bool) (n : Nat) (p : Position) (fs : List Frame)
    (vs : List (Visit × Verdict)) (k : Walk) (s : Sweep) : Prop where
  walk : s.walk = some k
  published : s.published = s.toPublish
  tracks : k.Tracks fs vs
  first : IsFirst (Suffices barrier n p) (processedIn vs)
  stopped : k.ahead ≠ [] → k.HasStopped barrier n (processedIn vs)

variable {h : Host ς ε} {fs : List Frame} {vs ws : List (Visit × Verdict)} {k : Walk} {s : Sweep}
  {w : World ς}

theorem IsOnTheWay.isJustEnough {e : Epoch} (on : s.IsOnTheWay barrier n p fs vs k)
    (safe : s.isSafeAt e p = true) :
    IsJustEnough (Suffices barrier n p) fs (processedIn vs) := by
  have whole := on.tracks.ahead
  refine on.first.isJustEnough ⟨k.ahead, whole⟩ ?_
  by_cases done : k.ahead = []
  · rw [done, List.append_nil] at whole
    exact .inr whole
  · have stopped := on.stopped done
    obtain ⟨ys, g, split, barred, leading⟩ := stopped.leading
    have notDone : s.published.word.isDone = false := by
      rw [on.published]
      simp only [toPublish, on.walk, Walk.hasNext_iff.2 done, if_true]
      exact ProgressWord.isDone_pack _ _
    obtain ⟨-, decided⟩ := isSafeAt_iff.1 safe
    rw [notDone] at decided
    have beyond := decided.resolve_left Bool.false_ne_true k on.walk
    rw [leading] at beyond
    exact .inl ⟨stopped.count, ys, g, split, barred, beyond⟩

theorem IsOnTheWay.step (on : s.IsOnTheWay barrier n p fs vs k)
    (pos : ∀ f ∈ fs, 0 < f.position.addr) (left : k.ahead ≠ [])
    (le : k.trail.leading.addr ≤ p.addr) (tr : (k.stepOver barrier).Tracks fs (ws ++ vs)) :
    IsOnTheWay barrier n p fs (ws ++ vs) (k.stepOver barrier)
      { s with
        walk := some (k.stepOver barrier)
        published := toPublish { s with walk := some (k.stepOver barrier) } } := by
  have pos' (f : Frame) (hf : f ∈ k.ahead) : 0 < f.position.addr :=
    pos f (on.tracks.ahead ▸ List.mem_append_right _ hf)
  obtain ⟨passed, split, plain, -⟩ := k.stepOver_passes barrier pos'
  have same := tr.ahead.trans on.tracks.ahead.symm
  rw [processedIn_append, List.append_assoc, List.append_cancel_left_eq] at same
  have hp : processedIn ws = passed := List.append_cancel_right (same.trans split)
  have short := (on.stopped left).not_suffices le
  refine ⟨rfl, rfl, tr, ?_, ?_⟩
  · rw [processedIn_append, hp]
    exact on.first.append short plain
  · intro left'
    rw [processedIn_append, hp]
    exact (on.stopped left).step pos' left' split

/-- A start that succeeds takes its first steps. -/
theorem isOnTheWay_start (context : Option Nat) (fixed : ∀ f w, h.hasBarrier f w = barrier f)
    (hv : h.pacing.Valid) (pos : ∀ f ∈ w.thread.frames, 0 < f.position.addr)
    (walkable : w.thread.hasWalkableStack = true) (ok : (s.start h context w).1 = .ok ())
    (p : Position) : ∃ k vs, Hands w.log vs (s.start h context w).2.2.log ∧
      IsOnTheWay barrier h.pacing.initialFrames p w.thread.frames vs k
        (s.start h context w).2.1 := by
  have passes := firstSteps_passes h context s w
  cases s.departs h context w with
  | idle none => exact absurd (walkable.symm.trans none) Bool.true_eq_false.mp
  | refused _ refused ended => exact absurd (ended ▸ ok) refused
  | begun k w' _ steps start =>
    have taken := Walk.steps_of_ok fixed ⟨context, s.published⟩ h.pacing.initialFrames
      (.ofFrames w.thread.frames) ((announced h w).walkStack .incremental).2
      (congrArg Prod.fst steps)
    have walk : k =
        (Walk.stepOver barrier)^[h.pacing.initialFrames] (.ofFrames w.thread.frames) :=
      (congrArg (fun r => r.2.1) steps).symm.trans taken
    obtain ⟨part, whole, crossed⟩ :=
      Walk.exists_hasCrossed barrier pos h.pacing.initialFrames
    rw [← walk] at whole crossed
    rw [steps] at passes
    obtain ⟨vs, seen, -, led⟩ := passes
    have tr := (led _ _ (Walk.tracks_ofFrames w.thread.frames)).1
    rw [List.append_nil] at tr
    cases List.append_cancel_right (whole.trans tr.ahead.symm)
    rw [start] at ok ⊢
    refine ⟨k, vs, ?_, ?_⟩
    · have opened : Hands w.log [] (openedLog h w) := ⟨[_, _, _], rfl, rfl⟩
      have handed := (Hands.of_visited seen).after opened
      exact (handed.cons (e := .installed (h.label w') (w.readEpoch h.kind).1) trivial).quiet
        (hands_conclude h (.ok ()) _ _)
    · rw [(conclude_of_ok 0 ok).1]
      refine ⟨rfl, rfl, tr, ?_, ?_⟩
      · intro other within ne enough
        exact absurd enough.1 (Nat.not_le.2 (crossed.first other within ne))
      · intro left
        have two : 1 < h.pacing.initialFrames := hv.covers_buffer
        exact ⟨crossed.count left, crossed.trailing left (by omega), crossed.leading left two⟩

/-- An increment that succeeds on a campaign under way is a step to the next barrier. -/
theorem IsOnTheWay.increment (on : s.IsOnTheWay barrier n p fs vs k)
    (fixed : ∀ f w, h.hasBarrier f w = barrier f) (pos : ∀ f ∈ fs, 0 < f.position.addr)
    (current : s.isStale (w.readEpoch h.kind).1 = false) (left : k.ahead ≠ [])
    (le : k.trail.leading.addr ≤ p.addr) (ok : (s.increment h w).1 = .ok ()) :
    ∃ k' ws, Hands w.log ws (s.increment h w).2.2.log ∧
      (s.increment h w).2.1.IsOnTheWay barrier n p fs (ws ++ vs) k' := by
  have stepped := k.step_of_ok fixed ⟨none, s.published⟩ (w.readEpoch h.kind).2
  have spec := (k.step_spec h ⟨none, s.published⟩ (w.readEpoch h.kind).2).1
  rw [Sweep.increment_of_walk current on.walk] at ok ⊢
  generalize k.step h ⟨none, s.published⟩ (w.readEpoch h.kind).2 = r at stepped spec ok ⊢
  obtain ⟨o, k', w'⟩ := r
  cases ok_of_conclude_ok ok
  obtain rfl : k' = k.stepOver barrier := stepped rfl
  obtain ⟨ws, seen, -, led⟩ := spec
  refine ⟨k.stepOver barrier, ws, ?_, ?_⟩
  · have read : Hands w.log [] (w.readEpoch h.kind).2.log := ⟨[_], rfl, rfl⟩
    exact ((Hands.of_visited seen).after read).quiet (hands_conclude h (.ok ()) _ w')
  · rw [(conclude_of_ok 0 ok).1]
    exact on.step pos left le (led fs vs on.tracks).1

end Sweep

namespace Stage

variable {h : Host ς ε} {c : Calm} {f : Frame} {m : Nat} {s s' : Sweep} {w w' : World ς}
  {o : Outcome ε Unit}

/-- If a frame has been secured, just enough frames have been processed. -/
theorem Secures.isJustEnough (hk : c.kinds h.kind) (keeps : h.Respects c.Holds)
    (fixed : ∀ f w, h.hasBarrier f w = barrier f) {fs : List Frame}
    (pos : ∀ f ∈ fs, 0 < f.position.addr) (secures : Secures h f m s w o s' w') (ok : o = .ok ())
    (calm : c.Holds w) (ready : s.IsReady) (current : s.isStale (c.epoch h.kind) = false)
    {k : Walk} {vs : List (Visit × Verdict)}
    (on : s.IsOnTheWay barrier n (w.thread.decidingPosition f) fs vs k) :
    ∃ ws, Hands w.log ws w'.log ∧
      IsJustEnough (Suffices barrier n (w.thread.decidingPosition f)) fs
        (processedIn (ws ++ vs)) := by
  induction secures generalizing k vs with
  | safe safe => exact ⟨[], ⟨[_], rfl, rfl⟩, on.isJustEnough safe⟩
  | refused _ _ refused => exact absurd ok refused
  | @onward _ s w _ _ _ _ _ beyond moved _ ih =>
    have later := keeps.read calm
    have after := holds_of_increment keeps calm moved
    have looked : s.isStale (w.readEpoch h.kind).1 = false := by rwa [calm.current hk]
    have again : s.isStale ((w.readEpoch h.kind).2.readEpoch h.kind).1 = false := by
      rwa [later.current hk]
    obtain ⟨k', walk, left, le⟩ := Sweep.walk_of_unsafe ready.toIsLevel looked beyond
    cases on.walk.symm.trans walk
    have passes := Sweep.increment_passes (h := h) ready again walk left
    have stepped := on.increment fixed pos again left le
    unfold Sweep.isSafe at moved
    rw [moved] at passes stepped
    obtain ⟨ready', current', -⟩ := passes rfl
    obtain ⟨k', ws, hands, on'⟩ := stepped rfl
    rw [later.current hk] at current'
    rw [← calm.decidingPosition_eq after f] at on'
    obtain ⟨ws', hands', enough⟩ := ih ok after ready' current' on'
    refine ⟨ws' ++ ws, ?_, ?_⟩
    · exact (hands.after ⟨[_], rfl, rfl⟩).trans hands'
    · rw [calm.decidingPosition_eq after f, ← List.append_assoc] at enough
      exact enough

/-- From the start of a campaign on. -/
theorem Secures.isJustEnough_of_stale (hk : c.kinds h.kind) (keeps : h.Respects c.Holds)
    (hv : h.pacing.Valid) (asc : Ascending (c.stack.getD []))
    (fixed : ∀ f w, h.hasBarrier f w = barrier f) (secures : Secures h f m s w o s' w')
    (ok : o = .ok ()) (calm : c.Holds w) (stale : s.isStale (w.readEpoch h.kind).1 = true)
    (walkable : w.thread.hasWalkableStack = true) :
    ∃ vs, Hands w.log vs w'.log ∧
      IsJustEnough (Suffices barrier h.pacing.initialFrames (w.thread.decidingPosition f))
        w.thread.frames (processedIn vs) := by
  have pos : ∀ f ∈ w.thread.frames, 0 < f.position.addr := by
    unfold Thread.frames
    rw [calm.stack]
    exact asc.1
  cases secures with
  | safe safe => exact absurd (Sweep.isSafe_of_isStale stale f) (by simp [safe])
  | refused _ _ refused => exact absurd ok refused
  | @onward _ s w s₁ w₁ _ _ _ beyond moved rest =>
    have later := keeps.read calm
    have after := holds_of_increment keeps calm moved
    rw [calm.current hk, ← later.current hk] at stale
    have ready := Sweep.start_isReady (h := h) (s := s) none hv
      ((keeps.read later).rising asc.rising)
    have started := Sweep.isOnTheWay_start (s := s)
      (w := ((w.readEpoch h.kind).2.readEpoch h.kind).2) none fixed hv pos walkable
    unfold Sweep.isSafe at moved
    rw [← Sweep.increment_of_stale h stale, moved] at ready started
    obtain ⟨ready, current⟩ := ready rfl
    obtain ⟨k, vs, hands, on⟩ := started rfl (w.thread.decidingPosition f)
    rw [(keeps.read later).current hk] at current
    rw [← calm.decidingPosition_eq after f] at on
    obtain ⟨ws, hands', enough⟩ :=
      rest.isJustEnough hk keeps fixed pos ok after ready current on
    rw [calm.decidingPosition_eq after f] at enough
    exact ⟨ws ++ vs, (hands.after ⟨[_, _], rfl, rfl⟩).trans hands', enough⟩

end Stage

/-- What comes of securing a frame with this many increments and these visits. -/
structure Stage.Secured (h : Host ς ε) (f : Frame) (s : Sweep) (w : World ς) (m : Nat)
    (vs : List (Visit × Verdict)) (o : Outcome ε Unit) (s' : Sweep) (w' : World ς) : Prop where
  loop : Secures h f m s w o s' w'
  ends : (Call.secure f).run h (2 * m + 1) s w = (some (o.map fun _ => .nothing), s', w')
  bounded : m ≤ toPass h s w + 1
  hands : Hands w.log vs w'.log
  /-- If it succeeds, the frame is safe. -/
  safe : o = .ok () → (s'.isSafe h f w').1 = true
  /-- It fails exactly if one of its visits has failed. -/
  failed : (∀ x, o ≠ .unwound x) → ((∃ e, o = .failed e) ↔ ∃ x ∈ vs, x.2 = .failed)
  unwound : ∀ x, o = .unwound x → h.Raises w.log x w'.log
  thrives : (∀ v w, (h.process v w).1 = .ok ()) → o = .ok ()
  /-- To secure a frame for a campaign that has not been started, just enough of the stack is
  processed, and every visit succeeds. -/
  enough : ∀ barrier : Frame → Bool, (∀ f w, h.hasBarrier f w = barrier f) →
    s.isStale (w.readEpoch h.kind).1 = true → w.thread.hasWalkableStack = true →
    f.trampoline = false → o = .ok () → (∀ x ∈ vs, x.2 = .processed) ∧
      IsJustEnough (Suffices barrier h.pacing.initialFrames f.position) w.thread.frames
        (processedIn vs)

namespace Site

variable {past h : Host ς ε} {c : Calm} {birth : Epoch} {site : Site ς}

/-- Whatever state processors have brought a sweep into, to secure a frame comes to an end, as long
as epochs and stack stay as they are meanwhile and positions ascend along all stacks. It takes at
most one increment more than there are frames to pass. Unless the processor unwinds, it fails
exactly if one of the visits does, and otherwise the frame is safe in the end. From a campaign that
is still to be started, the frames processed are the shortest part of the stack that holds the
barriers of the first steps and ends at a barrier beyond the frame, or the whole stack if there is
no such part. -/
theorem secured_of_reachable (r : Reachable past birth site) (hv : h.pacing.Valid)
    (walked_asc : ∀ fs ∈ walked site.world.log, Ascending fs)
    (asc : Ascending (c.stack.getD [])) (hk : c.kinds h.kind) (calm : c.Holds site.world)
    (keeps : ∀ v w, c.Holds w → c.Holds (h.process v w).2) (f : Frame) :
    ∃ m vs o s w, Stage.Secured h f site.sweep site.world m vs o s w := by
  have ready := r.isReady walked_asc
  have respects := Calm.respects hk keeps
  obtain ⟨m, o, s, w, secures, bounded⟩ :=
    Stage.exists_secures hk respects hv asc.rising ready calm f
  have answers := secures.answers
  have raised := (secures.fares respects calm hv asc.rising ready.sound).raised
  have unwound (x : Fault) (hx : o = .unwound x) : h.Raises site.world.log x w.log :=
    raised x (hx ▸ rfl)
  obtain ⟨es, log⟩ := answers.suffix
  have hands : Hands site.world.log (handed es) w.log := ⟨es, log.symm, rfl⟩
  refine ⟨m, handed es, o, s, w, secures, secures.run_eq, bounded, hands,
    secures.judged hk respects calm, fun quiet => answers.failed_iff quiet hands, unwound, ?_, ?_⟩
  · intro thrives
    cases answers with
    | thrived => rfl
    | failed v w _ _ ho => cases (thrives v _).symm.trans ho
    | unwound x =>
      obtain ⟨v, w, -, ho, -⟩ := unwound x rfl
      cases (thrives v _).symm.trans ho
  · intro barrier fixed stale walkable plain ok
    obtain ⟨vs, hands', enough⟩ :=
      secures.isJustEnough_of_stale hk respects hv asc fixed ok calm stale walkable
    cases hands.unique hands'
    rw [Thread.decidingPosition_of_not_trampoline plain] at enough
    refine ⟨?_, enough⟩
    cases answers with
    | thrived hands' all =>
      rw [hands.unique hands']
      exact all
    | failed => cases ok
    | unwound => cases ok

/-- A processor that does its work. -/
def diligent : Host Bool String := { moody with process := fun _ w => (.ok (), w) }

/-- While the first campaign is current and the stack is that of the run. -/
def firstCalm : Calm := ⟨(· = moody.kind), fun _ => 1, some fourFrames, true⟩

theorem holds_firstCalm : firstCalm.Holds (fresh.moveOn 1 false).world where
  epochs := .of_steady (fun _ _ => rfl) fun k hk => by
    cases hk
    rfl
  stack := rfl
  walkable := rfl

/-- To secure the second frame of the run, the first three are processed. -/
theorem secured_of_fresh :
    ∃ m vs s w, Stage.Secured diligent ⟨1, ⟨20⟩, true, false⟩ (fresh.moveOn 1 false).sweep
        (fresh.moveOn 1 false).world m vs (.ok ()) s w ∧
      (s.isSafe diligent ⟨1, ⟨20⟩, true, false⟩ w).1 = true ∧
      processedIn vs = fourFrames.take 3 := by
  obtain ⟨m, vs, o, s, w, secured⟩ := secured_of_reachable (h := diligent) (c := firstCalm)
    (reachable_fresh.moveOn 1 false) reachable_fresh.valid (by decide +kernel) (by decide +kernel)
    rfl holds_firstCalm (fun _ _ => id) ⟨1, ⟨20⟩, true, false⟩
  obtain rfl := secured.thrives fun _ _ => rfl
  obtain ⟨-, enough⟩ :=
    secured.enough Frame.barrier (fun _ _ => rfl) (by decide +kernel) rfl rfl rfl
  refine ⟨m, vs, s, w, secured, secured.safe rfl, ?_⟩
  have three := enough.shortest (fourFrames.take 3) (List.take_prefix _ _) (by decide)
  have part : processedIn vs = fourFrames.take (processedIn vs).length :=
    List.prefix_iff_eq_take.1 enough.within
  have met := enough.met
  generalize (processedIn vs).length = n at three part
  rw [part] at met ⊢
  have le : n ≤ 3 := three
  obtain rfl | rfl | rfl | rfl : n = 0 ∨ n = 1 ∨ n = 2 ∨ n = 3 := by omega
  · exact absurd met (by decide)
  · exact absurd met (by decide)
  · exact absurd met (by decide)
  · rfl

end Site

end StackSweep
