import StackSweep.Proofs.Dating

/-!
# What is published while nobody holds the lock

The published boundary and word, the epoch, the walk and its trail, at a time when the lock is
free. They agree as long as no authority returns to an epoch and positions ascend along every stack
that is walked. A start that did not succeed leaves no walk and a word of the past. A processor
that unwound leaves a boundary that lags behind the trail.
-/

namespace StackSweep

/-- The authority never returned to an epoch, and positions ascend along all stacks that were
walked. -/
structure Orderly (log : List Event) : Prop where
  neverReturn : Epoch.NeverReturn (readings log)
  ascending : ∀ fs ∈ walked log, Ascending fs

theorem Orderly.of_suffix {log log' : List Event} (h : Orderly log') (suffix : log <:+ log') :
    Orderly log where
  neverReturn := h.neverReturn.of_suffix (readings_suffix suffix)
  ascending fs hfs := h.ascending fs ((walked_suffix suffix).subset hfs)

theorem Orderly.of_snapshot {birth : Epoch} {log : List Event} {a : Attempt} {fs : List Frame}
    (h : Orderly log) (ha : a ∈ attempts birth log) (hs : a.snapshot = some fs) : Ascending fs :=
  h.ascending fs (mem_walked_of_snapshot a ha hs)

namespace Sweep

/-- What is published of a walk that has frames left. -/
structure IsUnderWay (s : Sweep) (k : Walk) (log : List Event) : Prop where
  notDone : s.published.word.isDone = false
  boundary_le : s.published.boundary.addr ≤ k.trail.trailing.addr
  trailing_pos : 0 < k.trail.trailing.addr
  leading_pos : 0 < k.trail.leading.addr
  boundary_eq : raisedSince log = false → s.published.boundary = k.trail.trailing

/-- What holds of the fields of a sweep whenever its lock is free. -/
structure Kept (birth : Epoch) (s : Sweep) (log : List Event) : Prop where
  word : s.published.word.isOf s.epoch = true
  boundary : s.published.boundary = .none ↔ s.published.word.isDone = true
  idle : s.walk = none → s.published.word.isDone = true ∨ s.epoch.IsPast (readings log)
  underWay : ∀ k, s.walk = some k → k.ahead ≠ [] → s.IsUnderWay k log
  exhausted : ∀ k, s.walk = some k → k.ahead = [] → s.published.word.isDone = true
  told : ∀ a ∈ attempts birth log, a.stands = true → a.published = true

variable {birth : Epoch} {s s' : Sweep} {log log' : List Event}

theorem kept_settled (birth : Epoch) (k : KindId) :
    (settled birth).Kept birth [.epochRead k birth] where
  word := ProgressWord.isOf_pack.2 rfl
  boundary := by simp [settled, Published.settled]
  idle _ := .inl (ProgressWord.isDone_pack _ _)
  underWay := nofun
  exhausted := nofun
  told := by
    rintro a (_ | ⟨_, ⟨⟩⟩) _
    rfl

theorem told_tell {as : List Attempt} (f : s.Follows as) (done : Bool)
    (earlier : ∀ a ∈ as.tail, a.stands = true → a.published = true) :
    ∀ a ∈ as.modifyHead (.tell (.pack s.epoch done)), a.stands = true → a.published = true := by
  cases as with
  | nil => simp
  | cons b as =>
    rintro a (_ | ⟨_, ha⟩) hs
    · exact f.published_tell hs done
    · exact earlier a ha hs

/-- Publishing sets everything right, once the trail of a walk with frames left has begun. -/
theorem kept_publishes (acc : s.Accounted (attempts birth log))
    (filled : ∀ k, s.walk = some k → k.ahead ≠ [] →
      0 < k.trail.trailing.addr ∧ 0 < k.trail.leading.addr)
    (earlier : ∀ a ∈ (attempts birth log).tail, a.stands = true → a.published = true)
    (h : s.Publishes log s' log') : s'.Kept birth log' := by
  cases h with
  | @boundary k l hk left pos =>
    refine ⟨ProgressWord.isOf_pack.2 rfl, ?_, ?_, ?_, ?_, told_tell acc.follows false earlier⟩
    · simp only [ProgressWord.isDone_pack, Bool.false_eq_true, iff_false]
      exact Position.addr_pos_iff.1 pos
    · intro hw
      cases hw.symm.trans hk
    · intro k' hk' _
      cases hk.symm.trans hk'
      obtain ⟨trailing, leading⟩ := filled k hk left
      exact ⟨ProgressWord.isDone_pack _ _, Nat.le_refl _, trailing, leading, fun _ => rfl⟩
    · intro k' hk' done
      cases hk.symm.trans hk'
      exact absurd done left
  | ending l exhausted =>
    have done : (ProgressWord.pack s.epoch true).isDone = true := ProgressWord.isDone_pack _ _
    refine ⟨ProgressWord.isOf_pack.2 rfl, ?_, ?_, ?_, ?_, ?_⟩
    · simp [Published.settled]
    · intro _
      exact .inl done
    · intro k hk left
      exact absurd (exhausted k hk) left
    · intro _ _ _
      exact done
    · have told := told_tell acc.follows true earlier
      split
      · exact told
      · exact told
  | @stuck k hk left missing =>
    have pos := (filled k hk left).1
    omega

theorem kept_asides (h : s.Kept birth log) (asides : Visited log [] log') : s.Kept birth log' where
  word := h.word
  boundary := h.boundary
  idle hw := by
    rw [asides.readings_eq]
    exact h.idle hw
  underWay k hk left := by
    obtain ⟨notDone, le, trailing, leading, eq⟩ := h.underWay k hk left
    refine ⟨notDone, le, trailing, leading, fun quiet => eq ?_⟩
    simpa [asides.raisedSince_eq] using quiet
  exhausted := h.exhausted
  told := by
    rw [asides.attempts_same]
    exact h.told

theorem kept_moves (h : s.Kept birth log) (acc : s.Accounted (attempts birth log))
    (ord : Orderly log) (moves : s.Moves log s' log') : s'.Kept birth log' := by
  cases moves with
  | rest => exact h
  | settle hw published =>
    refine kept_publishes acc ?_ ?_ published
    · intro k hk
      rw [hw] at hk
      cases hk
    · intro a ha
      exact h.told a (List.mem_of_mem_tail ha)
  | @unwound k k' _ hk passes =>
    obtain ⟨a, as, fs, has, hs, hi, he, tr⟩ := acc.follows.of_walk hk
    have asc : Ascending fs := ord.of_snapshot (has ▸ List.mem_cons_self) hs
    obtain ⟨notDone, le, trailing, leading, eq⟩ :=
      h.underWay k hk (passes.ahead_ne_nil tr (passes.left_of_unwound trivial))
    obtain ⟨vs, seen, left, led⟩ := passes
    obtain ⟨within, raised⟩ := (led fs a.visits tr).2 asc
    refine ⟨h.word, h.boundary, ?_, ?_, ?_, ?_⟩
    · intro hw
      cases hw
    · intro k'' hk'' _
      cases hk''
      refine ⟨notDone, Nat.le_trans le within.1, Nat.lt_of_lt_of_le trailing within.1,
        Nat.lt_of_lt_of_le leading within.2, ?_⟩
      intro quiet
      obtain ⟨x, hx, hd⟩ := raised trivial
      rw [seen.raisedSince_eq, Bool.or_eq_false_iff, List.any_eq_false] at quiet
      exact absurd (by simp [hd]) (quiet.1 x hx)
    · intro k'' hk'' done
      cases hk''
      exact absurd done (left trivial)
    · rw [seen.attempts_eq]
      exact forall_mem_modifyHead h.told fun _ ha => ha
  | @passed k k' log₁ _ _ _ hk passes published asides =>
    obtain ⟨a, as, fs, has, hs, hi, he, tr⟩ := acc.follows.of_walk hk
    have asc : Ascending fs := ord.of_snapshot (has ▸ List.mem_cons_self) hs
    have acc' := accounted_passes acc hk passes
    refine kept_asides (kept_publishes acc' ?_ ?_ published) asides
    · intro k'' hk'' left
      cases hk''
      have old := h.underWay k hk (passes.ahead_ne_nil tr left)
      have trailing := old.trailing_pos
      have leading := old.leading_pos
      obtain ⟨vs, _, -, led⟩ := passes
      obtain ⟨within, within'⟩ := ((led fs a.visits tr).2 asc).1
      omega
    · obtain ⟨vs, seen, -⟩ := passes
      have told := h.told
      rw [has] at told
      rw [seen.attempts_eq, has]
      exact fun b hb => told b (List.mem_cons_of_mem _ hb)

/-- A start while the epoch of the sweep is of the past. -/
theorem kept_starts {begun : Bool} (h : s.Kept birth log) (acc : s.Accounted (attempts birth log))
    (past : s.epoch.IsPast (readings log)) (ord : Orderly log')
    (starts : s.Starts log begun s' log') : s'.Kept birth log' := by
  cases starts with
  | idle i e l published => exact kept_publishes (accounted_idle acc i e l) nofun h.told published
  | dropped i e l tid o fs passes asides =>
    have ord₁ := ord.of_suffix (passes.suffix.trans asides.suffix)
    obtain ⟨vs, seen, -⟩ := passes
    refine kept_asides ⟨h.word, h.boundary, ?_, nofun, nofun, ?_⟩ asides
    · intro _
      right
      rw [seen.readings_eq]
      exact past.cons ord₁.neverReturn
    · rw [attempts_started seen]
      rintro a (_ | ⟨_, ha⟩) hs
      · cases hs
      · exact h.told a ha hs
  | @installed k _ _ _ i e l l' tid o fs passes filled published =>
    have ord₁ := ord.of_suffix (passes.suffix.trans (.trans ⟨[_], rfl⟩ published.suffix))
    have asc : Ascending fs := ord₁.ascending fs List.mem_cons_self
    refine kept_publishes (accounted_installed acc passes) ?_ ?_ published
    · intro k' hk' left
      cases hk'
      exact filled asc left
    · obtain ⟨vs, seen, -⟩ := passes
      rw [attempts, attempts_started seen]
      exact h.told

theorem kept_read {e : Epoch} (h : s.Kept birth log) (i : KindId)
    (nr : Epoch.NeverReturn (e :: readings log)) : s.Kept birth (.epochRead i e :: log) where
  word := h.word
  boundary := h.boundary
  idle hw := (h.idle hw).imp_right fun past => past.cons nr
  underWay k hk left := by
    obtain ⟨notDone, le, trailing, leading, eq⟩ := h.underWay k hk left
    exact ⟨notDone, le, trailing, leading, eq⟩
  exhausted := h.exhausted
  told := h.told

/-- A start after another epoch than that of the published word has been read. -/
theorem kept_renewed {begun : Bool} {i : KindId} {e : Epoch} (h : s.Kept birth log)
    (acc : s.Accounted (attempts birth log)) (d : s.IsDated birth log) (ord : Orderly log')
    (stale : s.isStale e = true) (starts : s.Starts (.epochRead i e :: log) begun s' log') :
    s'.Kept birth log' := by
  have past : s.epoch.IsPast (e :: readings log) := by
    refine d.epoch.isPast ?_
    intro same
    have := s.published.word.isOf_congr same
    rw [h.word] at this
    simp [isStale, this] at stale
  have read := kept_read h i (ord.of_suffix starts.suffix).neverReturn
  have acc' : s.Accounted (attempts birth (.epochRead i e :: log)) := acc
  exact kept_starts read acc' past ord starts

theorem kept_turns (h : s.Kept birth log) (acc : s.Accounted (attempts birth log))
    (d : s.IsDated birth log) (ord : Orderly log') (turns : s.Turns log s' log') :
    s'.Kept birth log' := by
  have acc' {i : KindId} {e : Epoch} : s.Accounted (attempts birth (.epochRead i e :: log)) := acc
  cases turns with
  | looked i e => exact kept_read h i ord.neverReturn
  | resumed moves => exact kept_moves h acc (ord.of_suffix moves.suffix) moves
  | @current log₁ _ _ i e _ asides moves =>
    have ord₁ := ord.of_suffix moves.suffix
    have read := kept_read h i (ord₁.of_suffix asides.suffix).neverReturn
    refine kept_moves (kept_asides read asides) ?_ ord₁ moves
    rw [asides.attempts_same]
    exact acc
  | renewed i e stale starts asides moves =>
    have ord₂ := ord.of_suffix moves.suffix
    have ord₁ := ord₂.of_suffix asides.suffix
    have kept := kept_renewed h acc d ord₁ stale starts
    refine kept_moves (kept_asides kept asides) ?_ ord₂ moves
    rw [asides.attempts_same]
    exact accounted_starts acc' starts

end Sweep

end StackSweep
