import StackSweep.Proofs.Site

/-!
# What may be relied on

What others read off a sweep while nobody holds its lock: how the published boundary, the trail and
the next frame lie to each other, and that a frame which counts as safe has been processed.
-/

namespace StackSweep

/-- On an ascending stack a walk has processed whatever does not lie beyond a boundary of its trail.
-/
theorem Walk.Tracks.mem_processedIn {k : Walk} {fs : List Frame} {vs : List (Visit × Verdict)}
    {f : Frame} {p : Position} (tr : k.Tracks fs vs) (asc : Ascending fs)
    (marked : p.addr = 0 ∨ ∃ g ∈ processedIn vs, g.position = p) (hf : f ∈ fs)
    (inside : f.position.addr ≤ p.addr) : f ∈ processedIn vs := by
  have pos := asc.1 f hf
  rw [← tr.ahead] at hf
  refine (List.mem_append.1 hf).resolve_right ?_
  intro ahead
  rcases marked with missing | ⟨g, hg, rfl⟩
  · omega
  · have split := asc.2
    rw [← tr.ahead] at split
    have := (List.pairwise_append.1 split).2.2 g hg f ahead
    omega

/-- The holder of the lock takes a frame for safe if the campaign is over or if the frame lies
inside the leading boundary. -/
theorem Sweep.isSafeAt_iff {s : Sweep} {e : Epoch} {p : Position} :
    s.isSafeAt e p = true ↔ s.published.word.isOf e = true ∧
      (s.published.word.isDone = true ∨ ∀ k, s.walk = some k → p.addr < k.trail.leading.addr) := by
  unfold isSafeAt isStale
  cases s.published.word.isOf e with
  | false => simp
  | true =>
    cases s.published.word.isDone with
    | true => simp
    | false => cases s.walk <;> simp [Position.isInner]

namespace Site

variable {ς ε : Type} {h : Host ς ε} {birth : Epoch} {site : Site ς}

theorem IsOrderly.orderly (ord : site.IsOrderly h) : Orderly site.world.log :=
  ord.of_suffix (List.suffix_cons _ _)

/-- The epoch that is current is not of the past. -/
theorem IsOrderly.not_isPast (ord : site.IsOrderly h) {e : Epoch}
    (same : e.significant = (site.current h).significant) :
    ¬ e.IsPast (readings site.world.log) :=
  fun past => past.ne_of_neverReturn ord.neverReturn same.symm

/-- The question whether a frame is safe is decided at the frame, unless that is a trampoline. -/
theorem isSafe_eq {f : Frame} (hf : f.trampoline = false) :
    (site.sweep.isSafe h f site.world).1 =
      site.sweep.isSafeAt (site.current h) f.position := by
  show site.sweep.isSafeAt (site.current h) (site.world.thread.decidingPosition f) = _
  rw [Thread.decidingPosition_of_not_trampoline hf]

/-- Whatever stands for the current campaign is the latest attempt. -/
theorem Reachable.eq_head_of_current (r : Reachable h birth site) (ord : site.IsOrderly h)
    {a : Attempt} (ha : a ∈ attempts birth site.world.log) (stands : a.stands = true)
    (same : a.epoch.significant = (site.current h).significant) :
    ∃ as, attempts birth site.world.log = a :: as := by
  have told := (r.kept ord.orderly).told a ha stands
  have dated := r.isDated ord.orderly.neverReturn
  obtain ⟨b, as, has⟩ := exists_attempts birth site.world.log
  rw [has] at ha
  rcases List.mem_cons.1 ha with rfl | ha
  · exact ⟨as, has⟩
  · have old : a.date ∈ (dates birth site.world.log).tail := by
      rw [dates, has]
      exact List.mem_map_of_mem ha
    exact absurd (dated.earlier a.date old told) (ord.not_isPast same)

/-- Nothing is published between a campaign's end and the next one's beginning but that it is over;
and while a campaign is under way, the boundary lies inside the trail and the trail inside the next
frame. -/
theorem published_of_reachable (r : Reachable h birth site) (ord : site.IsOrderly h) :
    (site.sweep.published.boundary = .none ↔ site.sweep.published.word.isDone = true) ∧
    (site.sweep.published.word.isOf (site.current h) = true →
      site.sweep.published.word.isDone = false →
      ∃ k f rest, site.sweep.walk = some k ∧ k.ahead = f :: rest ∧
        site.sweep.epoch.significant = (site.current h).significant ∧
        k.trail.trailing ≠ .none ∧ k.trail.leading ≠ .none ∧
        site.sweep.published.boundary.addr ≤ k.trail.trailing.addr ∧
        k.trail.trailing.addr < k.trail.leading.addr ∧
        k.trail.leading.addr < f.position.addr ∧
        (raisedSince site.world.log = false →
          site.sweep.published.boundary = k.trail.trailing)) ∧
    (site.sweep.published.word.isOf (site.current h) = true →
      (∀ k, site.sweep.walk = some k → k.ahead = []) →
      site.sweep.published.word.isDone = true) := by
  have kept := r.kept ord.orderly
  have level (hw : site.sweep.published.word.isOf (site.current h) = true) :
      site.sweep.epoch.significant = (site.current h).significant :=
    ProgressWord.significant_eq kept.word hw
  have done_of_none (hw : site.sweep.published.word.isOf (site.current h) = true)
      (none : site.sweep.walk = none) : site.sweep.published.word.isDone = true :=
    (kept.idle none).resolve_right (ord.not_isPast (level hw))
  refine ⟨kept.boundary, ?_, ?_⟩
  · intro hw notDone
    cases hk : site.sweep.walk with
    | none =>
      rw [done_of_none hw hk] at notDone
      cases notDone
    | some k =>
      cases ha : k.ahead with
      | nil =>
        rw [kept.exhausted k hk ha] at notDone
        cases notDone
      | cons f rest =>
        obtain ⟨-, le, trailing, leading, eq⟩ := kept.underWay k hk (by simp [ha])
        obtain ⟨a, as, fs, has, hs, -, -, tr⟩ := r.accounted.follows.of_walk hk
        have asc : Ascending fs := ord.orderly.of_snapshot (has ▸ List.mem_cons_self) hs
        obtain ⟨pos, beyond⟩ := tr.beyond asc ha
        have marks := tr.marks asc
        exact ⟨k, f, rest, rfl, ha, level hw, Position.addr_pos_iff.1 trailing,
          Position.addr_pos_iff.1 leading, le, (marks.ordered leading).2,
          marks.leading_lt pos beyond, eq⟩
  · intro hw exhausted
    cases hk : site.sweep.walk with
    | none => exact done_of_none hw hk
    | some k => exact kept.exhausted k hk (exhausted k hk)

/-- While the drain of the run waits, the last frame is left. -/
theorem published_of_yielded :
    yielded.sweep.published.word.isOf (yielded.current moody) = true ∧
    yielded.sweep.published.word.isDone = false ∧
    ∃ k f rest, yielded.sweep.walk = some k ∧ k.ahead = f :: rest ∧
      k.trail.leading.addr < f.position.addr ∧
      (raisedSince yielded.world.log = false →
        yielded.sweep.published.boundary = k.trail.trailing) := by
  have of : yielded.sweep.published.word.isOf (yielded.current moody) = true := by decide +kernel
  have notDone : yielded.sweep.published.word.isDone = false := by decide +kernel
  obtain ⟨k, f, rest, hk, ha, -, -, -, -, -, lt, eq⟩ :=
    (published_of_reachable reachable_yielded orderly_yielded).2.1 of notDone
  exact ⟨of, notDone, k, f, rest, hk, ha, lt, eq⟩

/-- A frame of the stack that is walked for the current campaign counts as safe only once it has
been processed for that campaign. -/
theorem processed_of_isSafe (r : Reachable h birth site) (ord : site.IsOrderly h) {f : Frame}
    (hf : f.trampoline = false) (safe : (site.sweep.isSafe h f site.world).1 = true) :
    (∃ a ∈ attempts birth site.world.log, a.stands = true ∧
      a.epoch.significant = (site.current h).significant) ∧
    ∀ a ∈ attempts birth site.world.log, a.installed = true →
      a.epoch.significant = (site.current h).significant →
      ∀ fs, a.snapshot = some fs → f ∈ fs → ∃ v, (v, .processed) ∈ a.visits ∧ v.frame = f := by
  have kept := r.kept ord.orderly
  have acc := r.accounted
  rw [isSafe_eq hf] at safe
  obtain ⟨of, decided⟩ := Sweep.isSafeAt_iff.1 safe
  refine ⟨?_, ?_⟩
  · obtain ⟨b, hb, he⟩ := acc.follows.standing_eq
    refine ⟨b, mem_of_standing hb, standing_stands hb, ?_⟩
    rw [← he]
    exact ProgressWord.significant_eq kept.word of
  · intro a ha installed same fs hs hfs
    obtain ⟨as, has⟩ := r.eq_head_of_current ord ha (by simp [Attempt.stands, installed]) same
    have follows := acc.follows
    rw [has] at follows
    obtain ⟨k, hk, tr⟩ := follows.walk_of_installed installed hs
    apply mem_of_mem_processedIn
    by_cases left : k.ahead = []
    · rw [← tr.ahead, left, List.append_nil] at hfs
      exact hfs
    · have notDone := (kept.underWay k hk left).notDone
      rw [notDone] at decided
      have asc := ord.orderly.of_snapshot ha hs
      exact tr.mem_processedIn asc (tr.marks asc).leading hfs
        (Nat.le_of_lt (decided.resolve_left Bool.false_ne_true k hk))

/-- The innermost frame of the run is safe while the drain waits, and has been processed. -/
theorem processed_of_isSafe_yielded :
    (yielded.sweep.isSafe moody ⟨0, ⟨10⟩, true, false⟩ yielded.world).1 = true ∧
    ∀ a ∈ attempts 0 yielded.world.log, a.installed = true →
      a.epoch.significant = (yielded.current moody).significant →
      ∀ fs, a.snapshot = some fs → ⟨0, ⟨10⟩, true, false⟩ ∈ fs →
        ∃ v, (v, .processed) ∈ a.visits ∧ v.frame = ⟨0, ⟨10⟩, true, false⟩ := by
  have safe : (yielded.sweep.isSafe moody ⟨0, ⟨10⟩, true, false⟩ yielded.world).1 = true := by
    decide +kernel
  exact ⟨safe, (processed_of_isSafe reachable_yielded orderly_yielded rfl safe).2⟩

end Site

end StackSweep
