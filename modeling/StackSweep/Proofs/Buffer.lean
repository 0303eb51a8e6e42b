import StackSweep.Proofs.Safety

/-!
# The safety buffer

A start takes a few steps before anyone can see that the campaign has begun, so that the innermost
frame and its caller are safe from then on. Each of the steps passes a frame at least, and all these
frames have been processed. They count as safe inside the leading boundary, however, and that
boundary may lie at the last of them: with the fewest steps that a pacing may ask for, this is the
caller of the innermost frame.
-/

namespace StackSweep

namespace Trail

variable {t : Trail} {p : Position}

theorem trailing_record_pos (t : Trail) (hp : 0 < p.addr) : 0 < (t.record p).trailing.addr := by
  unfold record
  split
  · exact hp
  · rename_i found
    split
    · exact Position.addr_pos_iff.2 (by simpa [Position.isNone_iff] using found)
    · rename_i found'
      exact Position.addr_pos_iff.2 (by simpa [Position.isNone_iff] using found')

/-- A trail that has begun takes in a boundary at its leading end. -/
theorem leading_record (begun : 0 < t.trailing.addr) (p : Position) :
    (t.record p).leading = p := by
  have found : t.trailing.isNone = false := by
    rw [Bool.eq_false_iff, Ne, Position.isNone_iff]
    exact Position.addr_pos_iff.1 begun
  unfold record
  rw [found]
  split
  · contradiction
  · split <;> rfl

end Trail

namespace Walk

variable {ς ε : Type} {k : Walk} {n : Nat} {fs : List Frame} {vs : List (Visit × Verdict)}

/-- The walk has taken this many steps that succeeded, and no others. -/
structure HasTaken (n : Nat) (k : Walk) (vs : List (Visit × Verdict)) : Prop where
  processed : n ≤ (processedIn vs).length
  trailing : 0 < n → 0 < k.trail.trailing.addr
  leading : 1 < n → ∃ ys g, processedIn vs = ys ++ [g] ∧ k.trail.leading = g.position

/-- Of the first frames all lie within the leading boundary, and all but the last inside it. -/
structure Buffers (n : Nat) (k : Walk) (fs : List Frame) : Prop where
  inside : ∀ f ∈ fs.take (n - 1), f.position.addr < k.trail.leading.addr
  within : ∀ f ∈ fs.take n, f.position.addr ≤ k.trail.leading.addr

theorem step_hasTaken (h : Host ς ε) (sh : Shared) (w : World ς) (asc : Ascending fs)
    (tr : k.Tracks fs vs) (taken : k.HasTaken n vs) (ok : (k.step h sh w).1 = .ok ())
    (left : (k.step h sh w).2.1.ahead ≠ []) :
    ∃ vs', (k.step h sh w).2.1.Tracks fs vs' ∧ (k.step h sh w).2.1.HasTaken (n + 1) vs' := by
  obtain ⟨vs', ys, g, tr', hvs, trail⟩ := step_records h sh w asc tr ok left
  have pos : 0 < g.position.addr := by
    have split := tr'.ahead
    rw [hvs] at split
    exact asc.1 g (split ▸ by simp)
  refine ⟨vs', tr', ?_, ?_, ?_⟩
  · have := taken.processed
    rw [hvs]
    simp
    omega
  · intro _
    rw [trail]
    exact k.trail.trailing_record_pos pos
  · intro hn
    refine ⟨processedIn vs ++ ys, g, hvs, ?_⟩
    rw [trail]
    exact Trail.leading_record (taken.trailing (by omega)) g.position

theorem steps_hasTaken (h : Host ς ε) (sh : Shared) (m : Nat) :
    ∀ {k : Walk} {n : Nat} {vs : List (Visit × Verdict)} (w : World ς), Ascending fs →
      k.Tracks fs vs → k.HasTaken n vs → (steps h sh m k w).1 = .ok () →
      (steps h sh m k w).2.1.ahead ≠ [] →
      ∃ vs', (steps h sh m k w).2.1.Tracks fs vs' ∧
        (steps h sh m k w).2.1.HasTaken (n + m) vs' := by
  induction m with
  | zero => exact fun _ _ tr taken _ _ => ⟨_, tr, taken⟩
  | succ m ih =>
    intro k n vs w asc tr taken ok left
    have first := k.step_spec h sh w
    have stepped := step_hasTaken h sh w asc tr taken
    unfold steps at ok left ⊢
    generalize k.step h sh w = r at first stepped ok left ⊢
    obtain ⟨o, k₁, w₁⟩ := r
    cases o with
    | failed e => cases ok
    | unwound x => cases ok
    | ok _ =>
      obtain ⟨vs₁, -, -, led⟩ := first.1
      have still := (steps_spec h sh m k₁ w₁).1.ahead_ne_nil (led fs vs tr).1 left
      obtain ⟨vs', tr', taken'⟩ := stepped rfl still
      have := ih w₁ asc tr' taken' ok left
      rwa [Nat.add_assoc, Nat.add_comm 1 m] at this

/-- Each step passes a frame, and the leading boundary lies where the last step ended. -/
theorem HasTaken.buffers (taken : k.HasTaken n vs) (tr : k.Tracks fs vs) (asc : Ascending fs)
    (hn : 1 < n) : k.Buffers n fs := by
  obtain ⟨ys, g, hvs, led⟩ := taken.leading hn
  have count := taken.processed
  have split := tr.ahead
  rw [hvs, List.append_assoc] at split
  rw [hvs, List.length_append, List.length_singleton] at count
  have inside (f : Frame) (hf : f ∈ ys) : f.position.addr < g.position.addr := by
    have pairs := asc.2
    rw [← split] at pairs
    exact (List.pairwise_append.1 pairs).2.2 f hf g (by simp)
  rw [← split]
  refine ⟨?_, ?_⟩
  · intro f hf
    rw [List.take_append_of_le_length (by omega)] at hf
    rw [led]
    exact inside f (List.mem_of_mem_take hf)
  · intro f hf
    rw [← List.append_assoc, List.take_append_of_le_length (by simp; omega)] at hf
    rw [led]
    rcases List.mem_append.1 (List.mem_of_mem_take hf) with hf | hf
    · exact Nat.le_of_lt (inside f hf)
    · exact Nat.le_of_eq (by rw [List.mem_singleton.1 hf])

/-- Steps from the innermost frame on that succeed and leave frames cover the first frames. -/
theorem steps_buffers (h : Host ς ε) (sh : Shared) (hn : 1 < n) (fs : List Frame) (w : World ς)
    (asc : Ascending fs) (ok : (steps h sh n (ofFrames fs) w).1 = .ok ())
    (left : (steps h sh n (ofFrames fs) w).2.1.ahead ≠ []) :
    (steps h sh n (ofFrames fs) w).2.1.Buffers n fs := by
  have none : (ofFrames fs).HasTaken 0 [] :=
    ⟨Nat.zero_le _, fun lt => absurd lt (Nat.lt_irrefl 0), nofun⟩
  obtain ⟨vs, tr, taken⟩ := steps_hasTaken h sh n w asc (tracks_ofFrames fs) none ok left
  rw [Nat.zero_add] at taken
  exact taken.buffers tr asc hn

theorem Buffers.mono {k' : Walk} (b : k.Buffers n fs) (out : k.trail.IsWithin k'.trail) :
    k'.Buffers n fs where
  inside f hf := Nat.lt_of_lt_of_le (b.inside f hf) out.2
  within f hf := Nat.le_trans (b.within f hf) out.2

end Walk

/-- The stack that the latest attempt found, if it found one. -/
def latestStack (birth : Epoch) (log : List Event) : Option (List Frame) :=
  ((attempts birth log).map Attempt.snapshot).head?.join

theorem latestStack_eq {birth : Epoch} {log : List Event} {a : Attempt} {as : List Attempt}
    (has : attempts birth log = a :: as) : latestStack birth log = a.snapshot := by
  simp [latestStack, has]

namespace Sweep

variable {ς ε : Type} {birth : Epoch} {n : Nat} {s s' : Sweep} {log log' : List Event}

/-- While frames are left, the first ones of the stack are covered. -/
def IsBuffered (n : Nat) (birth : Epoch) (s : Sweep) (log : List Event) : Prop :=
  ∀ k fs, s.walk = some k → k.ahead ≠ [] → latestStack birth log = some fs → k.Buffers n fs

theorem isBuffered_of_no_walk (hw : s.walk = none) : s.IsBuffered n birth log := by
  intro k fs hk
  rw [hw] at hk
  cases hk

theorem isBuffered_moves (b : s.IsBuffered n birth log) (acc : s.Accounted (attempts birth log))
    (ord : Orderly log) (moves : s.Moves log s' log') : s'.IsBuffered n birth log' := by
  intro k' fs hk' left hs
  have passed {k : Walk} {log₁ : List Event} {unwound : Prop} (hk : s.walk = some k)
      (passes : k.Passes log unwound k' log₁) : k'.Buffers n fs := by
    obtain ⟨a, as, fs', has, hs', -, -, tr⟩ := acc.follows.of_walk hk
    have same : latestStack birth log = some fs := by
      rw [← hs, latestStack, latestStack,
        moves.map_attempts_eq (g := Attempt.snapshot) (fun _ _ => rfl) fun _ _ => rfl]
    have old := b k fs hk (passes.ahead_ne_nil tr left) same
    rw [latestStack_eq has, hs'] at same
    cases same
    have asc : Ascending fs := ord.of_snapshot (has ▸ List.mem_cons_self) hs'
    obtain ⟨vs, -, -, led⟩ := passes
    exact old.mono ((led fs a.visits tr).2 asc).1
  cases moves with
  | rest => exact b k' fs hk' left hs
  | settle hw published =>
    rw [published.walk_eq, hw] at hk'
    cases hk'
  | unwound hk passes =>
    cases hk'
    exact passed hk passes
  | passed hk passes published asides =>
    rw [published.walk_eq] at hk'
    cases hk'
    exact passed hk passes

theorem isBuffered_start (h : Host ς ε) (hv : h.pacing.Valid) (context : Option Nat) (s : Sweep)
    (w : World ς) (ord : Orderly (s.start h context w).2.2.log) :
    (s.start h context w).2.1.IsBuffered h.pacing.initialFrames birth
      (s.start h context w).2.2.log := by
  by_cases walkable : w.thread.hasWalkableStack = true
  · obtain ⟨walked, log, start⟩ := s.start_of_walkable h context walkable
    rw [start] at ord ⊢
    have pass := (Walk.steps_spec h ⟨context, s.published⟩ h.pacing.initialFrames
      (.ofFrames w.thread.frames) walked).1
    have buffers := Walk.steps_buffers h ⟨context, s.published⟩ hv.covers_buffer w.thread.frames
      walked
    generalize Walk.steps h ⟨context, s.published⟩ h.pacing.initialFrames
      (.ofFrames w.thread.frames) walked = r at ord pass buffers ⊢
    obtain ⟨o, k, w'⟩ := r
    cases o with
    | failed e => exact isBuffered_of_no_walk rfl
    | unwound x => exact isBuffered_of_no_walk rfl
    | ok _ =>
      have published := publishes_conclude h (o := .ok ()) (by simp)
        { s with walk := some k, epoch := (w.readEpoch h.kind).1 }
        (w'.record (.installed (h.label w') (w.readEpoch h.kind).1))
      intro k' fs hk' left hs
      simp only at hk' ord hs
      rw [published.walk_eq] at hk'
      cases hk'
      rw [log] at pass
      have ord' := ord.of_suffix (pass.suffix.trans (.trans ⟨[_], rfl⟩ published.suffix))
      have asc : Ascending w.thread.frames := ord'.ascending _ List.mem_cons_self
      obtain ⟨vs, seen, -⟩ := pass
      rw [latestStack, published.map_attempts_eq fun _ _ => rfl] at hs
      rw [World.log_record, attempts, attempts_started seen] at hs
      cases hs
      exact buffers asc rfl left
  · rw [Bool.not_eq_true] at walkable
    refine isBuffered_of_no_walk ?_
    unfold start
    simp only [World.thread_record, World.thread_readEpoch, walkable, Bool.false_eq_true, if_false]
    exact (publishes_conclude h (by simp) _ _).walk_eq

theorem isBuffered_parts {h : Host ς ε} {w : World ς} (parts : Parts h s w s' log')
    (b : s.IsBuffered h.pacing.initialFrames birth w.log) (known : s.Known birth w.log)
    (hv : h.pacing.Valid) (ord : Orderly log') :
    s'.IsBuffered h.pacing.initialFrames birth log' := by
  cases parts with
  | looked => exact b
  | resumed moves => exact isBuffered_moves b known.accounted known.orderly moves
  | ensured context aside moves =>
    have ord₂ := ord.of_suffix moves.suffix
    have ord₁ := ord₂.of_suffix aside.suffix
    have known₂ := (known.ensureStarted hv context ord₁).asides aside ord₂
    refine isBuffered_moves ?_ known₂.accounted ord₂ moves
    have same : latestStack birth _ = latestStack birth _ :=
      congrArg (fun as => (as.map Attempt.snapshot).head?.join) aside.attempts_same
    unfold IsBuffered
    rw [same]
    unfold Sweep.ensureStarted at ord₁ ⊢
    by_cases stale : s.isStale (w.readEpoch h.kind).1 = true
    · simp only [stale, if_true] at ord₁ ⊢
      exact isBuffered_start h hv context s (w.readEpoch h.kind).2 ord₁
    · rw [Bool.not_eq_true] at stale
      simp only [stale, Bool.false_eq_true, if_false]
      exact b

end Sweep

namespace Site

variable {ς ε : Type} {h : Host ς ε} {birth : Epoch} {site : Site ς}

theorem Reachable.isBuffered (r : Reachable h birth site) (ord : Orderly site.world.log) :
    site.sweep.IsBuffered h.pacing.initialFrames birth site.world.log := by
  induction r with
  | created => exact Sweep.isBuffered_of_no_walk rfl
  | @step site site' r st ih =>
    have ord' := ord.of_suffix (st.suffix r.valid)
    have b := ih ord'
    cases st with
    | change w same =>
      unfold Sweep.IsBuffered
      rw [same]
      exact b
    | call p c _ =>
      unfold Sweep.IsBuffered
      rcases log_call h p c site with same | same
      · rw [same]
        exact b
      · rw [same]
        exact b
    | turn p c _ =>
      have parts := Sweep.parts_turn h c.stage site.sweep site.world
      exact Sweep.isBuffered_parts parts b (r.known ord') r.valid ord

/-- After a walk that has been used up every frame is safe. -/
theorem isSafe_of_exhausted {k : Walk} (kept : site.sweep.Kept birth site.world.log)
    (of : site.sweep.published.word.isOf (site.current h) = true) (hk : site.sweep.walk = some k)
    (left : k.ahead = []) {f : Frame} (hf : f.trampoline = false) :
    (site.sweep.isSafe h f site.world).1 = true := by
  rw [isSafe_eq hf]
  exact Sweep.isSafeAt_iff.2 ⟨of, .inl (kept.exhausted k hk left)⟩

/-- While frames are left, a frame is safe exactly if it lies inside the leading boundary. -/
theorem isSafe_iff_of_underWay {k : Walk} (kept : site.sweep.Kept birth site.world.log)
    (of : site.sweep.published.word.isOf (site.current h) = true) (hk : site.sweep.walk = some k)
    (left : k.ahead ≠ []) {f : Frame} (hf : f.trampoline = false) :
    (site.sweep.isSafe h f site.world).1 = true ↔ f.position.addr < k.trail.leading.addr := by
  rw [isSafe_eq hf, Sweep.isSafeAt_iff, of, (kept.underWay k hk left).notDone, hk]
  simp

/-- Once the walk of the current campaign has been put in place, the campaign is seen to have begun.
The frames that as many steps pass as a start takes have then been processed. They count as safe
from the first to the last but one, so that the caller of the innermost frame is among them if a
start takes three steps or more. The last of them does not as long as the leading boundary lies at
it. -/
theorem buffered_of_reachable (r : Reachable h birth site) (ord : site.IsOrderly h) {a : Attempt}
    {fs : List Frame} (ha : a ∈ attempts birth site.world.log) (installed : a.installed = true)
    (same : a.epoch.significant = (site.current h).significant) (hs : a.snapshot = some fs) :
    2 ≤ h.pacing.initialFrames ∧ site.sweep.hasStarted (site.current h) = true ∧
    (∀ f ∈ fs.take (h.pacing.initialFrames - 1), f.trampoline = false →
      (site.sweep.isSafe h f site.world).1 = true) ∧
    ∀ f ∈ fs.take h.pacing.initialFrames, f.trampoline = false → f ∈ processedIn a.visits ∧
      ((site.sweep.isSafe h f site.world).1 = false ↔
        ∃ k, site.sweep.walk = some k ∧ k.ahead ≠ [] ∧ k.trail.leading = f.position) := by
  have stands : a.stands = true := by simp [Attempt.stands, installed]
  obtain ⟨as, has⟩ := r.eq_head_of_current ord ha stands same
  have kept := r.kept ord.orderly
  have asc : Ascending fs := ord.orderly.of_snapshot ha hs
  have follows := r.accounted.follows
  rw [has] at follows
  obtain ⟨k, hk, tr⟩ := follows.walk_of_installed installed hs
  have of : site.sweep.published.word.isOf (site.current h) = true := by
    have own := kept.word
    rwa [follows.epoch_of_stands stands, ProgressWord.isOf_congr _ same] at own
  refine ⟨r.valid.covers_buffer, ?_, ?_⟩
  · rw [Sweep.hasStarted_eq_not_isStale, Sweep.isStale, of]
    rfl
  · by_cases left : k.ahead = []
    · refine ⟨fun f _ hf => isSafe_of_exhausted kept of hk left hf, ?_⟩
      intro f mem hf
      have all := tr.ahead
      rw [left, List.append_nil] at all
      rw [all]
      refine ⟨List.mem_of_mem_take mem, ?_⟩
      rw [isSafe_of_exhausted kept of hk left hf]
      constructor
      · intro beyond
        exact absurd beyond Bool.noConfusion
      · rintro ⟨k', hk', left', -⟩
        cases hk.symm.trans hk'
        exact absurd left left'
    · have b := r.isBuffered ord.orderly k fs hk left ((latestStack_eq has).trans hs)
      refine ⟨fun f mem hf => (isSafe_iff_of_underWay kept of hk left hf).2 (b.inside f mem), ?_⟩
      intro f mem hf
      have within := b.within f mem
      refine ⟨tr.mem_processedIn asc (tr.marks asc).leading (List.mem_of_mem_take mem) within, ?_⟩
      rw [← Bool.not_eq_true, isSafe_iff_of_underWay kept of hk left hf]
      constructor
      · intro beyond
        exact ⟨k, hk, left, Position.ext_iff.2 (by omega)⟩
      · rintro ⟨k', hk', -, eq⟩
        cases hk.symm.trans hk'
        rw [eq]
        exact Nat.lt_irrefl _

/-- The start of the run takes two steps, and the caller of the innermost frame does not count as
safe after them although it has been processed. -/
theorem buffered_of_begun :
    moody.pacing.initialFrames = 2 ∧ begun.sweep.hasStarted (begun.current moody) = true ∧
    (begun.sweep.isSafe moody ⟨0, ⟨10⟩, true, false⟩ begun.world).1 = true ∧
    (begun.sweep.isSafe moody ⟨1, ⟨20⟩, true, false⟩ begun.world).1 = false ∧
    ∃ a ∈ attempts 0 begun.world.log, ⟨1, ⟨20⟩, true, false⟩ ∈ processedIn a.visits := by
  have ord : begun.IsOrderly moody := ⟨by decide +kernel, by decide +kernel⟩
  obtain ⟨a, ha, installed, same, hs⟩ : ∃ a ∈ attempts 0 begun.world.log, a.installed = true ∧
      a.epoch.significant = (begun.current moody).significant ∧ a.snapshot = some fourFrames := by
    decide +kernel
  obtain ⟨-, started, safe, processed⟩ :=
    buffered_of_reachable reachable_begun ord ha installed same hs
  have caller := processed ⟨1, ⟨20⟩, true, false⟩ (by decide) rfl
  refine ⟨rfl, started, safe _ (by decide) rfl, caller.2.2 ?_, a, ha, caller.1⟩
  exact ⟨_, rfl, by decide +kernel, by decide +kernel⟩

end Site

end StackSweep
