import StackSweep.Proofs.Accounting

/-!
# When things were published

What the published word and the epoch of the sweep say about the past, as long as the authority
never returns to an epoch. Whatever was published before the latest attempt belongs to an epoch
that has passed, so that no campaign is attempted again once anything has been published for it.
-/

namespace StackSweep

/-- An attempt as far as its time is concerned. -/
structure Date where
  epoch : Epoch
  /-- Something was published for it. -/
  told : Bool

def Attempt.date (a : Attempt) : Date := ⟨a.epoch, a.published⟩

/-- The dates of all attempts, latest first. -/
def dates (birth : Epoch) (log : List Event) : List Date := (attempts birth log).map Attempt.date

/-- What a word and a sweep's epoch have to do with the readings and the attempts so far. -/
structure Dated (w : ProgressWord) (e : Epoch) (rs : List Epoch) (ds : List Date) : Prop where
  word : ∀ d, w.isOf d = true → d.WasRead rs
  epoch : e.WasRead rs
  latest : ∀ x, ds.head? = some x → x.told = true → x.epoch.IsPast rs ∨ w.isOf x.epoch = true
  earlier : ∀ x ∈ ds.tail, x.told = true → x.epoch.IsPast rs
  level : w.isOf e = true ∨ ∀ x ∈ ds, x.told = true → x.epoch.IsPast rs
  apart : ds.Pairwise fun later earlier =>
    earlier.told = true → later.epoch.significant ≠ earlier.epoch.significant

theorem ProgressWord.isOf_congr (w : ProgressWord) {d e : Epoch}
    (h : d.significant = e.significant) : w.isOf d = w.isOf e := by
  simp [isOf, h]

theorem ProgressWord.significant_eq {w : ProgressWord} {d e : Epoch} (hd : w.isOf d = true)
    (he : w.isOf e = true) : d.significant = e.significant := by
  rw [isOf, beq_iff_eq] at hd he
  exact hd.symm.trans he

namespace Dated

variable {w : ProgressWord} {e r : Epoch} {rs : List Epoch} {ds : List Date}

theorem settled (birth : Epoch) (done : Bool) :
    Dated (.pack birth done) birth [birth] [⟨birth, true⟩] where
  word d hd := (Epoch.wasRead_self birth []).congr (ProgressWord.isOf_pack.1 hd)
  epoch := Epoch.wasRead_self birth []
  latest := by simp [ProgressWord.isOf_pack]
  earlier := by simp
  level := .inl (ProgressWord.isOf_pack.2 rfl)
  apart := by simp

theorem read (h : Dated w e rs ds) (nr : Epoch.NeverReturn (r :: rs)) : Dated w e (r :: rs) ds where
  word d hd := (h.word d hd).cons r
  epoch := h.epoch.cons r
  latest x hx ht := (h.latest x hx ht).imp_left fun past => past.cons nr
  earlier x hx ht := (h.earlier x hx ht).cons nr
  level := h.level.imp_right fun past x hx ht => (past x hx ht).cons nr
  apart := h.apart

/-- Once another epoch than that of the word is read, everything published is of the past. -/
theorem past_of_stale (h : Dated w e rs ds) (nr : Epoch.NeverReturn (r :: rs))
    (stale : w.isOf r = false) : ∀ x ∈ ds, x.told = true → x.epoch.IsPast (r :: rs) := by
  intro x hx ht
  cases ds with
  | nil => cases hx
  | cons y ys =>
    rcases List.mem_cons.1 hx with rfl | hx
    · rcases h.latest x rfl ht with past | of
      · exact past.cons nr
      · refine (h.word _ of).isPast ?_
        intro same
        rw [w.isOf_congr same, of] at stale
        cases stale
    · exact (h.earlier x hx ht).cons nr

/-- An attempt begins, at a time when everything published is of the past. -/
theorem start {e' : Epoch} (h : Dated w e rs ds)
    (past : ∀ x ∈ ds, x.told = true → x.epoch.IsPast rs) (nr : Epoch.NeverReturn (r :: rs))
    (he : e'.WasRead (r :: rs)) : Dated w e' (r :: rs) (⟨r, false⟩ :: ds) where
  word d hd := (h.word d hd).cons r
  epoch := he
  latest x hx ht := by
    cases hx
    cases ht
  earlier x hx ht := (past x hx ht).cons nr
  level := by
    refine .inr ?_
    intro x hx ht
    rcases List.mem_cons.1 hx with rfl | hx
    · cases ht
    · exact (past x hx ht).cons nr
  apart := List.pairwise_cons.2 ⟨fun x hx ht => (past x hx ht).ne_of_neverReturn nr, h.apart⟩

/-- A word with the sweep's epoch is published. -/
theorem tell {x : Date} {told : Bool} (h : Dated w e rs (x :: ds)) (done : Bool)
    (new : told = true → x.told = true ∨ (ProgressWord.pack e done).isOf x.epoch = true) :
    Dated (.pack e done) e rs (⟨x.epoch, told⟩ :: ds) where
  word d hd := h.epoch.congr (ProgressWord.isOf_pack.1 hd)
  epoch := h.epoch
  latest y hy ht := by
    cases hy
    rcases new ht with old | of
    · rcases h.latest x rfl old with past | of
      · exact .inl past
      · rcases h.level with same | past
        · exact .inr (ProgressWord.isOf_pack.2 (ProgressWord.significant_eq same of))
        · exact .inl (past x (by simp) old)
    · exact .inr of
  earlier := h.earlier
  level := .inl (ProgressWord.isOf_pack.2 rfl)
  apart := List.pairwise_cons.2 (List.pairwise_cons.1 h.apart)

end Dated

/-! ## Dates along a log -/

section dates

variable {birth : Epoch} {log log' : List Event}

theorem Visited.dates_eq {vs : List (Visit × Verdict)} (h : Visited log vs log') :
    dates birth log' = dates birth log :=
  h.map_attempts_eq fun _ _ => rfl

theorem dates_walk (birth : Epoch) (tid : Nat) (o : WalkOptions) (fs : List Frame)
    (log : List Event) : dates birth (.walk tid o fs :: log) = dates birth log :=
  map_modifyHead (f := fun a : Attempt => { a with snapshot := some fs }) (g := Attempt.date)
    (fun _ => rfl) _

theorem dates_installed (birth : Epoch) (l : Label) (e : Epoch) (log : List Event) :
    dates birth (.installed l e :: log) = dates birth log :=
  map_modifyHead (f := fun a : Attempt => { a with installed := true }) (g := Attempt.date)
    (fun _ => rfl) _

end dates

namespace Sweep

variable {birth : Epoch} {s s' : Sweep} {log log' : List Event}

/-- The sweep is dated by its log. -/
def IsDated (birth : Epoch) (s : Sweep) (log : List Event) : Prop :=
  Dated s.published.word s.epoch (readings log) (dates birth log)

/-- Nothing is attempted for an epoch after something has been published for it. -/
theorem IsDated.attempts_apart (d : s.IsDated birth log) :
    (attempts birth log).Pairwise fun later earlier => earlier.published = true →
      later.epoch.significant ≠ earlier.epoch.significant :=
  List.pairwise_map.1 d.apart

theorem isDated_publishes (d : s.IsDated birth log) (h : s.Publishes log s' log') :
    s'.IsDated birth log' := by
  rcases h.cases_told birth with ⟨rfl, rfl⟩ | ⟨b, done, rfl, hr, ha⟩
  · exact d
  · unfold IsDated dates at d ⊢
    obtain ⟨a, as, has⟩ := exists_attempts birth log
    rw [has] at d
    rw [hr, ha, has]
    refine d.tell done ?_
    intro told
    simp only [Attempt.tell, Bool.or_eq_true, Bool.and_eq_true] at told
    exact told.imp_right And.right

theorem isDated_visited {vs : List (Visit × Verdict)} (d : s.IsDated birth log)
    (h : Visited log vs log') : s.IsDated birth log' := by
  unfold IsDated
  rw [h.readings_eq, h.dates_eq]
  exact d

theorem isDated_walk (d : s.IsDated birth log) (k : Option Walk) :
    IsDated birth { s with walk := k } log :=
  d

theorem isDated_read {e : Epoch} (d : s.IsDated birth log) (i : KindId)
    (nr : Epoch.NeverReturn (e :: readings log)) : s.IsDated birth (.epochRead i e :: log) :=
  d.read nr

theorem isDated_moves (d : s.IsDated birth log) (h : s.Moves log s' log') :
    s'.IsDated birth log' := by
  cases h with
  | rest => exact d
  | settle _ published => exact isDated_publishes d published
  | unwound _ passes =>
    obtain ⟨vs, seen, -⟩ := passes
    exact isDated_visited (isDated_walk d _) seen
  | passed _ passes published asides =>
    obtain ⟨vs, seen, -⟩ := passes
    exact isDated_visited (isDated_publishes (isDated_visited (isDated_walk d _) seen) published)
      asides

section starts

variable {i : KindId} {e : Epoch} {l l' : Label}

/-- A start that finds no stack to walk, before it publishes. -/
theorem isDated_idle (d : s.IsDated birth log)
    (past : ∀ x ∈ dates birth log, x.told = true → x.epoch.IsPast (readings log))
    (nr : Epoch.NeverReturn (e :: readings log)) :
    IsDated birth { s with walk := none, epoch := e } (.started l e :: .epochRead i e :: log) :=
  d.start past nr (Epoch.wasRead_self e _)

/-- A start whose first steps succeeded, before it publishes. -/
theorem isDated_installed {tid : Nat} {o : WalkOptions} {fs : List Frame} {k : Walk}
    {vs : List (Visit × Verdict)} {log₁ : List Event} (d : s.IsDated birth log)
    (past : ∀ x ∈ dates birth log, x.told = true → x.epoch.IsPast (readings log))
    (nr : Epoch.NeverReturn (e :: readings log))
    (seen : Visited (.walk tid o fs :: .started l e :: .epochRead i e :: log) vs log₁) :
    IsDated birth { s with walk := some k, epoch := e } (.installed l' e :: log₁) := by
  have read : readings (.installed l' e :: log₁) = e :: readings log := seen.readings_eq
  unfold IsDated
  rw [dates_installed, seen.dates_eq, dates_walk, read]
  exact d.start past nr (Epoch.wasRead_self e _)

end starts

/-- An attempt that follows the reading of another epoch than the word's. -/
theorem isDated_starts {begun : Bool} (d : s.IsDated birth log)
    (past : ∀ x ∈ dates birth log, x.told = true → x.epoch.IsPast (readings log))
    (h : s.Starts log begun s' log') (nr : Epoch.NeverReturn (readings log')) :
    s'.IsDated birth log' := by
  cases h with
  | idle i e l published =>
    have nr' := nr.of_suffix (readings_suffix published.suffix)
    exact isDated_publishes (isDated_idle d past nr') published
  | dropped i e l tid o fs passes asides =>
    have nr' : Epoch.NeverReturn (e :: readings log) :=
      nr.of_suffix (readings_suffix (passes.suffix.trans asides.suffix))
    obtain ⟨vs, seen, -⟩ := passes
    refine isDated_visited (isDated_visited ?_ seen) asides
    unfold IsDated
    rw [dates_walk]
    exact d.start past nr' (d.epoch.cons e)
  | installed i e l l' tid o fs passes filled published =>
    obtain ⟨vs, seen, -⟩ := passes
    have nr' : Epoch.NeverReturn (e :: readings log) :=
      nr.of_suffix (readings_suffix (seen.suffix.trans (.trans ⟨[_], rfl⟩ published.suffix)))
    exact isDated_publishes (isDated_installed d past nr' seen) published

theorem isDated_turns (d : s.IsDated birth log) (h : s.Turns log s' log')
    (nr : Epoch.NeverReturn (readings log')) : s'.IsDated birth log' := by
  cases h with
  | looked => exact d.read nr
  | resumed moves => exact isDated_moves d moves
  | current i e _ asides moves =>
    have nr' : Epoch.NeverReturn (e :: readings log) :=
      nr.of_suffix (readings_suffix (asides.suffix.trans moves.suffix))
    exact isDated_moves (isDated_visited (isDated_read d i nr') asides) moves
  | renewed i e stale starts asides moves =>
    have nr₁ := nr.of_suffix (readings_suffix (asides.suffix.trans moves.suffix))
    have nr' : Epoch.NeverReturn (e :: readings log) :=
      nr₁.of_suffix (readings_suffix starts.suffix)
    have past := d.past_of_stale nr' (by simpa [isStale] using stale)
    have started := isDated_starts (isDated_read d i nr') past starts nr₁
    exact isDated_moves (isDated_visited started asides) moves

end Sweep

end StackSweep
