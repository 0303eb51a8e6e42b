import StackSweep.Proofs.Crossing

/-!
# Campaigns by increments

A start crosses as many barriers as the pacing asks for, and each increment after it crosses one
more. As long as the processor does its work and the epoch stays, this decides everything that can
be seen of a campaign: which frames have been processed, what is published, and which boundary the
lock's holder sees.
-/

namespace StackSweep

variable {ς ε : Type} {barrier : Frame → Bool} {fs : List Frame} {m n : Nat}

/-! ## Walks that stay steady -/

namespace Walk

variable {k : Walk}

theorem stepOver_isSteady (barrier : Frame → Bool) (steady : k.IsSteady) :
    (k.stepOver barrier).IsSteady ∧ (k.stepOver barrier).HasTrail := by
  obtain ⟨passed, split, -, stop⟩ := stepOver_passes barrier k steady.rising.1
  have suffix : (k.stepOver barrier).ahead <:+ k.ahead := ⟨passed, split.symm⟩
  by_cases done : (k.stepOver barrier).ahead = []
  · refine ⟨⟨steady.rising.of_suffix suffix, ?_⟩, fun left => absurd done left⟩
    rw [done]
    nofun
  · obtain ⟨ys, g, rfl, -, trail⟩ := stop done
    have rising := steady.rising
    rw [split] at rising
    refine ⟨⟨steady.rising.of_suffix suffix, ?_⟩, fun _ => ?_⟩
    · intro f hf
      rw [trail]
      exact Trail.leading_record_le (steady.clear f (suffix.subset hf))
        ((List.pairwise_append.1 rising.2).2.2 g (by simp) f hf)
    · rw [trail]
      exact k.trail.trailing_record_pos (rising.1 g (by simp))

/-- However many steps a steady walk takes, it stays steady and has a boundary from the first on. -/
theorem iterate_isSteady (barrier : Frame → Bool) (steady : k.IsSteady) (n : Nat) :
    ((stepOver barrier)^[n] k).IsSteady ∧ (0 < n → ((stepOver barrier)^[n] k).HasTrail) := by
  induction n with
  | zero => exact ⟨steady, fun pos => absurd pos (Nat.lt_irrefl 0)⟩
  | succ n ih =>
    rw [Function.iterate_succ_apply']
    exact ⟨(stepOver_isSteady barrier ih.1).1, fun _ => (stepOver_isSteady barrier ih.1).2⟩

end Walk

namespace Sweep

variable {h : Host ς ε} {s : Sweep} {w : World ς} {e : Epoch}

/-- What has succeeded on a sound sweep is concluded by publishing where its walk stands. -/
theorem conclude_of_isSound (h : Host ς ε) (w : World ς) (sound : s.IsSound) :
    (s.conclude h (.ok ()) w).1 = .ok () ∧
      (s.conclude h (.ok ()) w).2.1 = { s with published := s.toPublish } := by
  have published := publish_of_isSound (h := h) (w := w) sound
  have ok : (s.conclude h (.ok ()) w).1 = .ok () := by
    unfold conclude
    split
    · contradiction
    · split
      · rfl
      · rename_i eq
        rw [eq] at published
        cases published
  exact ⟨ok, (conclude_of_ok 0 ok).1⟩

/-! ## Sweeps after so many steps -/

theorem isSound_begunOver (barrier : Frame → Bool) (e : Epoch) (rising : Rising fs) (pos : 0 < n)
    (published : Published) :
    IsSound ⟨published, some ((Walk.stepOver barrier)^[n] (.ofFrames fs)), e⟩ := by
  rintro _ ⟨⟩
  obtain ⟨steady, trail⟩ := Walk.iterate_isSteady barrier (Walk.isSteady_ofFrames rising) n
  exact ⟨steady, trail pos⟩

theorem hasNext_iterate (barrier : Frame → Bool) (n : Nat) (fs : List Frame) :
    ((Walk.stepOver barrier)^[n] (.ofFrames fs)).hasNext = true ↔ beyond barrier n fs ≠ [] := by
  rw [Walk.hasNext_iff, Walk.ahead_iterate, Walk.ahead_ofFrames]

theorem isOf_begunOver (barrier : Frame → Bool) (n : Nat) (e : Epoch) (fs : List Frame) :
    (begunOver barrier n e fs).published.word.isOf e = true :=
  isOf_toPublish (begunOver barrier n e fs)

/-- While frames are left, the campaign is under way. The last two barriers crossed are what can be
seen of it: the trailing one is published, and the lock's holder sees the leading one. -/
theorem begunOver_of_left {ys rest : List Frame} {g : Frame} (e : Epoch)
    (pos : ∀ f ∈ fs, 0 < f.position.addr) (two : 2 ≤ n) (nth : IsNth barrier n fs ys g rest)
    (left : rest ≠ []) :
    (begunOver barrier n e fs).phase e = .inProgress ∧
      (begunOver barrier n e fs).processedBoundary e = g.position ∧
      ∃ qs f, ys.filter barrier = qs ++ [f] ∧
        (begunOver barrier n e fs).published = ⟨f.position, .pack e false⟩ := by
  obtain ⟨crossed, behind⟩ := nth.upTo_eq
  rw [← behind] at left
  have more := (hasNext_iterate barrier n fs).2 left
  have stale : (begunOver barrier n e fs).isStale e = false := by
    rw [isStale, isOf_begunOver]
    rfl
  have notDone : (begunOver barrier n e fs).published.word.isDone = false := by
    simp [begunOver, more]
  obtain ⟨qs, f, g', last, trail⟩ := Walk.trail_ofFrames pos two left
  rw [crossed, List.filter_append, List.filter_cons_of_pos nth.barred] at last
  obtain ⟨before, same⟩ := List.append_inj' last rfl
  cases same
  refine ⟨?_, ?_, qs, f, before, ?_⟩
  · simp [phase, begunOver, more, ProgressWord.phase_pack]
  · rw [processedBoundary, stale, notDone]
    exact congrArg Trail.leading trail
  · simp only [begunOver, more, trail, if_true]

/-- When no frame is left, the campaign is over. -/
theorem begunOver_of_done (e : Epoch) (done : beyond barrier n fs = []) :
    (begunOver barrier n e fs).phase e = .done ∧
      (begunOver barrier n e fs).published = .settled e ∧
      (begunOver barrier n e fs).processedBoundary e = .none := by
  have last : ((Walk.stepOver barrier)^[n] (.ofFrames fs)).hasNext = false := by
    rw [Bool.eq_false_iff, Ne, hasNext_iterate, not_not]
    exact done
  have published : (begunOver barrier n e fs).published = .settled e := by simp [begunOver, last]
  refine ⟨?_, published, ?_⟩
  · rw [phase, published]
    exact phase_settled e
  · simp [processedBoundary, published, Published.settled]

/-! ## Starts and increments -/

section thrives

variable (fixed : ∀ f w, h.hasBarrier f w = barrier f) (thrives : h.Thrives)

include fixed thrives

/-- A start crosses the first barriers. -/
theorem start_of_thrives (hv : h.pacing.Valid) (context : Option Nat) (s : Sweep)
    (walkable : w.thread.hasWalkableStack = true) (rising : Rising w.thread.frames) :
    (s.start h context w).1 = .ok () ∧
      (s.start h context w).2.1 = begunOver barrier h.pacing.initialFrames
        (w.readEpoch h.kind).1 w.thread.frames ∧
      Hands w.log (Walk.Shared.visits ⟨context, s.published⟩ 0
        (upTo barrier h.pacing.initialFrames w.thread.frames)) (s.start h context w).2.2.log := by
  have pos : 0 < h.pacing.initialFrames := Nat.lt_of_lt_of_le Nat.zero_lt_two hv.covers_buffer
  obtain ⟨ok, walk, seen, -⟩ := Walk.steps_of_thrives fixed thrives ⟨context, s.published⟩
    h.pacing.initialFrames (.ofFrames w.thread.frames) ((announced h w).walkStack .incremental).2
  have begun : s.firstSteps h context w =
      (.ok (), (Walk.stepOver barrier)^[h.pacing.initialFrames] (.ofFrames w.thread.frames),
        (s.firstSteps h context w).2.2) := Prod.ext ok (Prod.ext walk rfl)
  have opened : Hands w.log [] (openedLog h w) := ⟨[_, _, _], rfl, rfl⟩
  have handed := ((Hands.of_visited seen).after opened).cons
    (e := .installed (h.label (s.firstSteps h context w).2.2) (w.readEpoch h.kind).1) trivial
  rw [start_of_begun walkable begun]
  obtain ⟨concluded, same⟩ := conclude_of_isSound h
    ((s.firstSteps h context w).2.2.record
      (.installed (h.label (s.firstSteps h context w).2.2) (w.readEpoch h.kind).1))
    (isSound_begunOver barrier (w.readEpoch h.kind).1 rising pos s.published)
  refine ⟨concluded, same.trans rfl, ?_⟩
  exact handed.quiet (hands_conclude h (.ok ()) _ _)

/-- An increment crosses the next barrier. -/
theorem increment_of_thrives {k : Walk} (current : s.isStale (w.readEpoch h.kind).1 = false)
    (hk : s.walk = some k) (steady : k.IsSteady) :
    (s.increment h w).1 = .ok () ∧
      (s.increment h w).2.1 =
        { s with
          walk := some (k.stepOver barrier)
          published := toPublish { s with walk := some (k.stepOver barrier) } } ∧
      Hands w.log (Walk.Shared.visits ⟨none, s.published⟩ k.cursor (upTo barrier 1 k.ahead))
        (s.increment h w).2.2.log := by
  have sound : IsSound { s with walk := some (k.stepOver barrier) } := by
    rintro _ ⟨⟩
    exact Walk.stepOver_isSteady barrier steady
  have seen := Walk.visited_handOut thrives ⟨none, s.published⟩ (upTo barrier 1 k.ahead) k.cursor
    (Bracket.enter (w.readEpoch h.kind).2).2
  rw [increment_of_walk current hk, Walk.step_of_thrives fixed thrives]
  generalize Walk.handOut h ⟨none, s.published⟩ k.cursor (upTo barrier 1 k.ahead)
    (Bracket.enter (w.readEpoch h.kind).2).2 = u at seen ⊢
  obtain ⟨ok, same⟩ :=
    conclude_of_isSound h ((Bracket.enter (w.readEpoch h.kind).2).1.leave u) sound
  refine ⟨ok, same, ?_⟩
  have read : Hands w.log [] (w.readEpoch h.kind).2.log := ⟨[_], rfl, rfl⟩
  exact ((Hands.of_visited (Bracket.visited_around seen)).after read).quiet
    (hands_conclude h (.ok ()) _ _)

theorem increment_begunOver (rising : Rising fs) (current : (w.readEpoch h.kind).1 = e) :
    ((begunOver barrier n e fs).increment h w).1 = .ok () ∧
      ((begunOver barrier n e fs).increment h w).2.1 = begunOver barrier (n + 1) e fs ∧
      ∃ vs, Hands w.log vs ((begunOver barrier n e fs).increment h w).2.2.log ∧
        (∀ x ∈ vs, x.2 = .processed) ∧ processedIn vs = upTo barrier 1 (beyond barrier n fs) := by
  have looked : (begunOver barrier n e fs).isStale (w.readEpoch h.kind).1 = false := by
    rw [isStale, current, isOf_begunOver]
    rfl
  obtain ⟨steady, -⟩ := Walk.iterate_isSteady barrier (Walk.isSteady_ofFrames rising) n
  obtain ⟨ok, same, hands⟩ := increment_of_thrives fixed thrives looked rfl steady
  rw [← Function.iterate_succ_apply' (Walk.stepOver barrier)] at same
  refine ⟨ok, same, _, hands, fun _ hx => Walk.Shared.processed_of_mem_visits hx, ?_⟩
  rw [Walk.processedIn_visits, Walk.ahead_iterate, Walk.ahead_ofFrames]

end thrives

end Sweep

/-! ## Campaigns -/

/-- The host finds this epoch whenever it reads one. -/
def Host.Finds (h : Host ς ε) (e : Epoch) (w : World ς) : Prop :=
  w.epochs.Abides (· = h.kind) fun _ => e

/-- The frames up to and including `g` have been processed. The last barrier before `g` is
published, and `g` is the boundary that the lock's holder sees. -/
structure Sweep.StandsAt (h : Host ς ε) (barrier : Frame → Bool) (e : Epoch) (ys : List Frame)
    (g : Frame) (processed : List Frame) (s : Sweep) (w : World ς) : Prop where
  processed : processed = ys ++ [g]
  phase : s.phase e = .inProgress
  published : ∃ qs f, ys.filter barrier = qs ++ [f] ∧ s.published.boundary = f.position
  boundary : (s.lastBoundary h w).1 = g.position

/-- All frames have been processed, and there is no boundary any more. -/
structure Sweep.IsThrough (h : Host ς ε) (e : Epoch) (fs processed : List Frame) (s : Sweep)
    (w : World ς) : Prop where
  processed : processed = fs
  phase : s.phase e = .done
  published : s.published.boundary = .none
  boundary : (s.lastBoundary h w).1 = .none

/-- An increment or a request for a start and then `k` increments, with this going on in between. -/
def campaign (h : Host ς ε) (meanwhile : Nat → World ς → World ς) (first : Call) :
    Nat → Sweep → World ς → Option (Outcome ε Answer) × Sweep × World ς
  | 0, s, w => first.run h 1 s w
  | k + 1, s, w =>
    let (_, s, w) := campaign h meanwhile first k s w
    Call.increment.run h 1 s (meanwhile k w)

section campaigns

variable {h : Host ς ε} {s : Sweep} {w : World ς} {e : Epoch} {first : Call}

theorem Host.Finds.current (finds : h.Finds e w) : (w.readEpoch h.kind).1 = e :=
  finds.answer rfl

theorem Host.Finds.lastBoundary_eq (finds : h.Finds e w) (s : Sweep) :
    (s.lastBoundary h w).1 = s.processedBoundary e :=
  congrArg s.processedBoundary finds.current

/-- The epoch stays during every operation if processing a frame does not change it. -/
theorem Host.respects_finds (keeps : ∀ v (w : World ς), h.Finds e w → h.Finds e (h.process v w).2) :
    h.Respects (h.Finds e) where
  record _ finds := finds
  read finds := finds.read rfl
  walk _ finds := finds
  enter finds := finds
  leave _ finds := finds
  visit v finds := keeps v _ finds

theorem Call.run_increment (h : Host ς ε) (s : Sweep) (w : World ς) :
    Call.increment.run h 1 s w =
      (some ((s.increment h w).1.map fun _ => .nothing), (s.increment h w).2) := rfl

/-- On a sweep that is stale either call is a start. -/
theorem Call.run_of_stale (starts : first = .increment ∨ first = .request) (finds : h.Finds e w)
    (stale : s.isStale e = true) : ∃ w₁, w₁.thread = w.thread ∧ Hands w.log [] w₁.log ∧
      h.Finds e w₁ ∧ first.run h 1 s w =
        (some ((s.start h none w₁).1.map fun _ => .nothing), (s.start h none w₁).2) := by
  have later : h.Finds e (w.readEpoch h.kind).2 := finds.read rfl
  rcases starts with rfl | rfl
  · refine ⟨(w.readEpoch h.kind).2, rfl, ⟨[_], rfl, rfl⟩, later, ?_⟩
    rw [run_increment, Sweep.increment_of_stale h (finds.current ▸ stale)]
  · refine ⟨((w.readEpoch h.kind).2.readEpoch h.kind).2, rfl, ⟨[_, _], rfl, rfl⟩,
      later.read rfl, ?_⟩
    have opened : Call.request.openWith h s.published w =
        (.needs .start, (w.readEpoch h.kind).2) :=
      Prod.ext (Sweep.request_of_isStale (finds.current ▸ stale)) rfl
    have started := Sweep.ensureStarted_of_stale h none (later.current ▸ stale)
    rw [run, opened]
    show (Stage.start.run h 1 s (w.readEpoch h.kind).2) = _
    rw [← started]
    rfl

variable {meanwhile : Nat → World ς → World ς}

/-- After the first call and `k` increments the sweep is as if it had been started with that many
more steps. -/
theorem campaign_eq (fixed : ∀ f w, h.hasBarrier f w = barrier f) (thrives : h.Thrives)
    (hv : h.pacing.Valid) (walkable : w.thread.hasWalkableStack = true)
    (rising : Rising w.thread.frames) (starts : first = .increment ∨ first = .request)
    (finds : h.Finds e w) (respects : h.Respects (h.Finds e))
    (idle : ∀ i w, (meanwhile i w).log = w.log)
    (stays : ∀ i w, h.Finds e w → h.Finds e (meanwhile i w)) (stale : s.isStale e = true)
    (k : Nat) : ∃ vs w', campaign h meanwhile first k s w =
        (some (.ok .nothing), .begunOver barrier (h.pacing.initialFrames + k) e w.thread.frames,
          w') ∧ h.Finds e w' ∧ Hands w.log vs w'.log ∧ (∀ x ∈ vs, x.2 = .processed) ∧
      processedIn vs = upTo barrier (h.pacing.initialFrames + k) w.thread.frames := by
  induction k with
  | zero =>
    obtain ⟨w₁, thread, read, finds₁, run⟩ := Call.run_of_stale starts finds stale
    rw [← thread] at walkable rising ⊢
    have kept := respects.start none s finds₁
    obtain ⟨ok, begun, hands⟩ := Sweep.start_of_thrives fixed thrives hv none s walkable rising
    rw [finds₁.current] at begun
    refine ⟨_, (s.start h none w₁).2.2, ?_, kept, hands.after read,
      fun _ hx => Walk.Shared.processed_of_mem_visits hx, Walk.processedIn_visits _ _ _⟩
    rw [campaign, run, ok, Nat.add_zero, ← begun]
    rfl
  | succ k ih =>
    obtain ⟨vs, w₁, run, finds₁, hands, all, processed⟩ := ih
    have finds₂ := stays k w₁ finds₁
    obtain ⟨ok, stepped, ws, hands', all', processed'⟩ := Sweep.increment_begunOver fixed thrives
      (n := h.pacing.initialFrames + k) rising finds₂.current
    have kept := respects.increment
      (.begunOver barrier (h.pacing.initialFrames + k) e w.thread.frames) finds₂
    rw [idle] at hands'
    refine ⟨ws ++ vs, _, ?_, kept, hands.trans hands', ?_, ?_⟩
    · simp only [campaign, run]
      rw [Call.run_increment, ok, ← Nat.add_assoc, ← stepped]
      rfl
    · exact fun x hx => (List.mem_append.1 hx).elim (all' x) (all x)
    · rw [processedIn_append, processed, processed', ← Nat.add_assoc,
        (upTo_add barrier 1 w.thread.frames _).1]

/-- A campaign in which the processor does its work, the epoch stays and positions ascend along the
stack. A call that finds the sweep stale and `k` increments after it all succeed. Take the barrier
whose number is that of the first steps and `k` together. If there is such a frame and it is not the
outermost one, the frames up to and including it have been processed, the campaign is under way, the
barrier before it is published, and the boundary that the lock's holder sees is that very frame.
Otherwise all frames have been processed, the campaign is over, and there is no boundary. -/
theorem campaign_stands (meanwhile : Nat → World ς → World ς)
    (fixed : ∀ f w, h.hasBarrier f w = barrier f) (thrives : h.Thrives)
    (hv : h.pacing.Valid) (walkable : w.thread.hasWalkableStack = true)
    (asc : Ascending w.thread.frames) (finds : h.Finds e w)
    (keeps : ∀ v w, h.Finds e w → h.Finds e (h.process v w).2)
    (idle : ∀ i w, (meanwhile i w).log = w.log)
    (stays : ∀ i w, h.Finds e w → h.Finds e (meanwhile i w)) (stale : s.isStale e = true)
    (starts : first = .increment ∨ first = .request) (k : Nat) :
    ∃ vs s' w', campaign h meanwhile first k s w = (some (.ok .nothing), s', w') ∧
      Hands w.log vs w'.log ∧ (∀ x ∈ vs, x.2 = .processed) ∧
      (∀ ys g rest, IsNth barrier (h.pacing.initialFrames + k) w.thread.frames ys g rest →
        rest ≠ [] → s'.StandsAt h barrier e ys g (processedIn vs) w') ∧
      ((∀ ys g rest, IsNth barrier (h.pacing.initialFrames + k) w.thread.frames ys g rest →
        rest = []) → s'.IsThrough h e w.thread.frames (processedIn vs) w') := by
  obtain ⟨vs, w', run, finds', hands, all, processed⟩ := campaign_eq fixed thrives hv walkable
    asc.rising starts finds (h.respects_finds keeps) idle stays stale k
  have two : 2 ≤ h.pacing.initialFrames + k := Nat.le_add_right_of_le hv.covers_buffer
  have seen := finds'.lastBoundary_eq
    (.begunOver barrier (h.pacing.initialFrames + k) e w.thread.frames)
  refine ⟨vs, _, w', run, hands, all, ?_, ?_⟩
  · intro ys g rest nth left
    obtain ⟨phase, boundary, qs, f, before, published⟩ :=
      Sweep.begunOver_of_left e asc.1 two nth left
    exact ⟨processed.trans nth.upTo_eq.1, phase, ⟨qs, f, before, by rw [published]⟩,
      seen.trans boundary⟩
  · intro none
    have done : beyond barrier (h.pacing.initialFrames + k) w.thread.frames = [] := by
      by_contra left
      obtain ⟨ys, g, rest, nth⟩ := exists_isNth _ (by omega) (le_countP_of_left _ left)
      exact left (nth.upTo_eq.2.trans (none ys g rest nth))
    have whole := upTo_append_beyond barrier w.thread.frames (h.pacing.initialFrames + k)
    rw [done, List.append_nil] at whole
    obtain ⟨phase, published, boundary⟩ := Sweep.begunOver_of_done e done
    exact ⟨processed.trans whole, phase, by rw [published]; rfl, seen.trans boundary⟩

end campaigns

namespace Site

/-- After a start with two steps and one increment the third of four frames is the boundary, and the
second is published. -/
theorem campaign_stands_of_fresh :
    ∃ s w, campaign diligent (fun _ w => w) .increment 1 (fresh.moveOn 1 false).sweep
        (fresh.moveOn 1 false).world = (some (.ok .nothing), s, w) ∧
      s.phase 1 = .inProgress ∧ s.published.boundary = ⟨20⟩ ∧
      (s.lastBoundary diligent w).1 = ⟨30⟩ := by
  have fixed : ∀ f (w : World Bool), diligent.hasBarrier f w = Frame.barrier f := fun _ _ => rfl
  obtain ⟨vs, s, w, run, -, -, stands, -⟩ := campaign_stands (e := 1)
    (s := (fresh.moveOn 1 false).sweep) (w := (fresh.moveOn 1 false).world) (fun _ w => w) fixed
    (fun _ _ => rfl) reachable_fresh.valid rfl (by decide +kernel) holds_firstCalm.epochs
    (fun _ _ => id) (fun _ _ => rfl) (fun _ _ => id) (by decide +kernel) (.inl rfl) 1
  obtain ⟨-, phase, ⟨qs, f, before, published⟩, boundary⟩ :=
    stands (fourFrames.take 2) ⟨2, ⟨30⟩, true, false⟩ (fourFrames.drop 3)
      ⟨rfl, rfl, rfl⟩ (by decide)
  have second : qs ++ [f] = [⟨0, ⟨10⟩, true, false⟩] ++ [⟨1, ⟨20⟩, true, false⟩] := before.symm
  obtain ⟨-, last⟩ := List.append_inj' second rfl
  cases last
  exact ⟨s, w, run, phase, published, boundary⟩

end Site

end StackSweep
