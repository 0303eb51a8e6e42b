import StackSweep.Proofs.Dating

/-!
# Saying that a campaign is over

When a sweep publishes that a campaign is over, this is so: every frame that the campaign's walk
found has been processed, or there was nothing to walk. There is one exception. If a start does not
succeed, the walk that was in place before is dropped although frames may be left. Whoever goes on
with a drain then finds no walk, and takes that for a walk that is complete.
-/

namespace StackSweep

/-- The attempt has reached its end: its walk is complete, or there was nothing to walk. -/
def Attempt.IsOver (a : Attempt) : Prop :=
  a.stands = true ∧ (a.snapshot = none ∨ a.IsComplete)

instance : DecidablePred Attempt.IsOver := fun a =>
  inferInstanceAs (Decidable (a.stands = true ∧ (a.snapshot = none ∨ a.IsComplete)))

/-- An attempt at the campaign with this epoch has reached its end. -/
def EndReached (as : List Attempt) (e : Epoch) : Prop :=
  ∃ a ∈ as, a.epoch.significant = e.significant ∧ a.IsOver

/-- The latest attempt did not succeed and has left the one before it without its walk, which was
not complete. -/
def Orphaned (as : List Attempt) : Prop :=
  (∀ a ∈ as.head?, a.stands = false) ∧ ∃ b ∈ standing as, ¬ b.IsOver

instance : DecidablePred Orphaned := fun as =>
  inferInstanceAs (Decidable ((∀ a ∈ as.head?, a.stands = false) ∧ ∃ b ∈ standing as, ¬ b.IsOver))

/-- The entry says that the campaign with this epoch is over. -/
def Event.SaysOver (e : Epoch) : Event → Prop
  | .wordStored _ w => w.isDone = true ∧ w.isOf e = true
  | .finished _ d => d = e
  | _ => False

/-- Whenever an entry said that a campaign was over, either that was so or an attempt had been left
without its walk. -/
def EndingsHold (birth : Epoch) (log : List Event) : Prop :=
  Throughout (fun ev earlier => ∀ e, ev.SaysOver e →
    (EndReached (attempts birth earlier) e ↔ ¬ Orphaned (attempts birth earlier))) log

theorem not_saysOver_of_isAside {ev : Event} (h : ev.isAside = true) (e : Epoch) :
    ¬ ev.SaysOver e := by
  cases ev <;> simp_all [Event.isAside, Event.SaysOver]

section attempts

variable {a b : Attempt} {as : List Attempt} {e : Epoch}

theorem EndReached.congr {d : Epoch} (h : EndReached as d) (same : d.significant = e.significant) :
    EndReached as e := by
  obtain ⟨a, ha, he, atEnd⟩ := h
  exact ⟨a, ha, he.trans same, atEnd⟩

theorem not_orphaned_of_stands (h : a.stands = true) : ¬ Orphaned (a :: as) := by
  intro orphaned
  have := orphaned.1 a rfl
  rw [h] at this
  cases this

/-- What is published for an attempt is no part of its end. -/
theorem endReached_tell (w : ProgressWord) :
    EndReached (as.modifyHead (.tell w)) e ↔ EndReached as e := by
  cases as with
  | nil => rfl
  | cons a as =>
    unfold EndReached
    simp only [List.modifyHead_cons, List.mem_cons, exists_eq_or_imp]
    rfl

theorem orphaned_tell (w : ProgressWord) : Orphaned (as.modifyHead (.tell w)) ↔ Orphaned as := by
  cases as with
  | nil => rfl
  | cons a as =>
    by_cases ha : a.stands = true
    · exact iff_of_false (not_orphaned_of_stands ha) (not_orphaned_of_stands ha)
    · rw [Bool.not_eq_true] at ha
      have told : (a.tell w).stands = false := ha
      unfold Orphaned
      rw [List.modifyHead_cons, standing_cons_of_not_stands told, standing_cons_of_not_stands ha]
      simp [told, ha]

/-- The attempt that stands comes after whatever else stands. -/
theorem eq_or_mem_of_standing (hb : standing as = some b) (ha : a ∈ as) (stands : a.stands = true) :
    a = b ∨ ∃ later earlier, as = later ++ b :: earlier ∧ a ∈ earlier := by
  obtain ⟨hs, later, earlier, rfl, fails⟩ := List.find?_eq_some_iff_append.1 hb
  rcases List.mem_append.1 ha with ha | ha
  · have := fails a ha
    simp [stands] at this
  · rcases List.mem_cons.1 ha with rfl | ha
    · exact .inl rfl
    · exact .inr ⟨later, earlier, rfl, ha⟩

end attempts

namespace Sweep

variable {birth : Epoch} {s s' : Sweep} {as : List Attempt} {log log' : List Event}

/-- Without a frame left to process, what the sweep's epoch stands for has reached its end or has
been left without its walk. -/
theorem Follows.standing_isOver (f : s.Follows as) (done : ∀ k, s.walk = some k → k.ahead = [])
    (intact : ¬ Orphaned as) : ∃ b, standing as = some b ∧ s.epoch = b.epoch ∧ b.IsOver := by
  obtain ⟨b, hb, he⟩ := f.standing_eq
  refine ⟨b, hb, he, ?_⟩
  cases f with
  | @idle a as hs hi _ _ =>
    have stands : a.stands = true := by simp [Attempt.stands, hs]
    rw [standing_cons_of_stands stands] at hb
    cases hb
    exact ⟨stands, .inl hs⟩
  | @walking a as k fs hs hi hk _ tr =>
    have stands : a.stands = true := by simp [Attempt.stands, hi]
    rw [standing_cons_of_stands stands] at hb
    cases hb
    refine ⟨stands, .inr ?_⟩
    have ahead := tr.ahead
    rw [done k hk, List.append_nil] at ahead
    rw [Attempt.IsComplete, ahead]
    exact hs
  | @failed a c as fs hs hi _ hc _ =>
    have fails : a.stands = false := by simp [Attempt.stands, hs, hi]
    refine Classical.byContradiction ?_
    intro open_
    refine intact ⟨?_, b, hb, open_⟩
    intro a' ha'
    cases ha'
    exact fails

/-- When no frame is left, the campaign of the sweep has reached its end exactly if its attempt has
not been left without its walk. -/
theorem endReached_iff (f : s.Follows as) (done : ∀ k, s.walk = some k → k.ahead = [])
    (told : ∀ a ∈ as.tail, a.IsOver → a.published = true)
    (apart : as.Pairwise fun later earlier => earlier.published = true →
      later.epoch.significant ≠ earlier.epoch.significant) :
    EndReached as s.epoch ↔ ¬ Orphaned as := by
  constructor
  · rintro ⟨a, ha, same, atEnd⟩ ⟨fails, b, hb, open_⟩
    obtain ⟨b', hb', he⟩ := f.standing_eq
    cases hb.symm.trans hb'
    rcases eq_or_mem_of_standing hb ha atEnd.1 with rfl | ⟨later, earlier, rfl, before⟩
    · exact open_ atEnd
    · have tail : a ∈ (later ++ b :: earlier).tail := by
        cases later with
        | nil => exact before
        | cons c later => simp [before]
      have apart' := (List.pairwise_append.1 apart).2.1
      refine (List.pairwise_cons.1 apart').1 a before (told a tail atEnd) ?_
      rw [same, he]
  · intro intact
    obtain ⟨b, hb, he, atEnd⟩ := f.standing_isOver done intact
    exact ⟨b, mem_of_standing hb, by rw [he], atEnd⟩

/-! ## Along a run -/

/-- What the log of a sweep says about endings, and what it takes to go on with that. -/
structure Sincere (birth : Epoch) (s : Sweep) (log : List Event) : Prop where
  told : ∀ a ∈ attempts birth log, a.IsOver → a.published = true
  /-- After a start that did not succeed the word is of the past or that of the sweep's epoch. -/
  failed : (∀ a ∈ (attempts birth log).head?, a.stands = false) →
    (∀ d, s.published.word.isOf d = true → d.IsPast (readings log)) ∨
      s.published.word.isOf s.epoch = true
  endings : EndingsHold birth log

theorem sincere_settled (birth : Epoch) (k : KindId) :
    (settled birth).Sincere birth [.epochRead k birth] where
  told := by
    rintro a (_ | ⟨_, ⟨⟩⟩) _
    rfl
  failed _ := .inr (ProgressWord.isOf_pack.2 rfl)
  endings := ⟨nofun, trivial⟩

theorem endingsHold_visited {vs : List (Visit × Verdict)} (h : EndingsHold birth log)
    (seen : Visited log vs log') : EndingsHold birth log' := by
  induction seen with
  | refl => exact h
  | aside _ aside ih => exact ⟨fun e said => absurd said (not_saysOver_of_isAside aside e), ih⟩
  | visit _ _ _ _ _ ih => exact ⟨nofun, ih⟩

/-- A walk with frames left is not complete. -/
theorem Follows.not_isOver {a : Attempt} (f : s.Follows (a :: as)) {k : Walk}
    (hk : s.walk = some k) (left : k.ahead ≠ []) : a.stands = true ∧ ¬ a.IsOver := by
  obtain ⟨_, _, fs, has, hs, hi, -, tr⟩ := f.of_walk hk
  cases has
  refine ⟨by simp [Attempt.stands, hi], ?_⟩
  rintro ⟨-, missing | complete⟩
  · rw [hs] at missing
    cases missing
  · have ahead := tr.ahead
    rw [Attempt.IsComplete, hs] at complete
    cases complete
    exact left (List.append_right_eq_self.1 ahead)

theorem sincere_publishes (acc : s.Accounted (attempts birth log)) (d : s.IsDated birth log)
    (told : ∀ a ∈ (attempts birth log).tail, a.IsOver → a.published = true)
    (endings : EndingsHold birth log) (h : s.Publishes log s' log') : s'.Sincere birth log' := by
  obtain ⟨a, as, has⟩ := exists_attempts birth log
  have f := acc.follows
  rw [has] at f told
  have told' (done : Bool) : ∀ b ∈ (attempts birth log).modifyHead (.tell (.pack s.epoch done)),
      b.IsOver → b.published = true := by
    rw [has]
    rintro b (_ | ⟨_, hb⟩) atEnd
    · exact f.published_tell atEnd.1 done
    · exact told b hb atEnd
  cases h with
  | boundary l hk left pos =>
    refine ⟨told' false, fun _ => .inr (ProgressWord.isOf_pack.2 rfl), ?_, nofun, endings⟩
    rintro e ⟨done, -⟩
    rw [ProgressWord.isDone_pack] at done
    cases done
  | ending l exhausted =>
    have tail : ∀ a ∈ (attempts birth log).tail, a.IsOver → a.published = true := by
      rw [has]
      exact told
    have ended : EndReached (attempts birth log) s.epoch ↔ ¬ Orphaned (attempts birth log) :=
      endReached_iff acc.follows exhausted tail d.attempts_apart
    have stored : EndingsHold birth
        (.wordStored l (.pack s.epoch true) :: .boundaryStored l .none :: log) := by
      refine ⟨?_, nofun, endings⟩
      rintro e ⟨-, of⟩
      have same := ProgressWord.isOf_pack.1 of
      exact Iff.trans ⟨fun h => h.congr same.symm, fun h => h.congr same⟩ ended
    split
    · exact ⟨told' true, fun _ => .inr (ProgressWord.isOf_pack.2 rfl), stored⟩
    · refine ⟨told' true, fun _ => .inr (ProgressWord.isOf_pack.2 rfl), ?_, stored⟩
      rintro e rfl
      exact (endReached_tell _).trans (ended.trans (not_congr (orphaned_tell _).symm))
  | stuck hk left missing =>
    obtain ⟨stands, open_⟩ := f.not_isOver hk left
    refine ⟨?_, ?_, endings⟩
    · rw [has]
      rintro b (_ | ⟨_, hb⟩) atEnd
      · exact absurd atEnd open_
      · exact told b hb atEnd
    · intro fails
      have := fails a (by rw [has]; rfl)
      rw [stands] at this
      cases this

theorem sincere_asides (t : s.Sincere birth log) (asides : Visited log [] log') :
    s.Sincere birth log' where
  told := by
    rw [asides.attempts_same]
    exact t.told
  failed := by
    rw [asides.attempts_same, asides.readings_eq]
    exact t.failed
  endings := endingsHold_visited t.endings asides

theorem sincere_moves (t : s.Sincere birth log) (acc : s.Accounted (attempts birth log))
    (d : s.IsDated birth log) (moves : s.Moves log s' log') : s'.Sincere birth log' := by
  cases moves with
  | rest => exact t
  | settle _ published =>
    exact sincere_publishes acc d (fun a ha => t.told a (List.mem_of_mem_tail ha)) t.endings
      published
  | @unwound k k' _ hk passes =>
    obtain ⟨a, as, has⟩ := exists_attempts birth log
    have f := (accounted_passes acc hk passes).follows
    have left := passes.left_of_unwound trivial
    obtain ⟨vs, seen, -⟩ := passes
    rw [seen.attempts_eq, has] at f
    obtain ⟨stands, open_⟩ := f.not_isOver rfl left
    refine ⟨?_, ?_, endingsHold_visited t.endings seen⟩
    · have told := t.told
      rw [has] at told
      rw [seen.attempts_eq, has]
      rintro b (_ | ⟨_, hb⟩) atEnd
      · exact absurd atEnd open_
      · exact told b (List.mem_cons_of_mem _ hb) atEnd
    · intro fails
      have := fails (a.add vs) (by rw [seen.attempts_eq, has]; rfl)
      rw [stands] at this
      cases this
  | @passed k k' log₁ _ _ _ hk passes published asides =>
    obtain ⟨a, as, has⟩ := exists_attempts birth log
    have acc' := accounted_passes acc hk passes
    obtain ⟨vs, seen, -⟩ := passes
    refine sincere_asides (sincere_publishes acc' (isDated_visited (isDated_walk d _) seen) ?_
      (endingsHold_visited t.endings seen) published) asides
    have told := t.told
    rw [has] at told
    rw [seen.attempts_eq, has]
    exact fun b hb atEnd => told b (List.mem_cons_of_mem _ hb) atEnd

theorem sincere_starts {begun : Bool} (t : s.Sincere birth log)
    (acc : s.Accounted (attempts birth log))
    (d : s.IsDated birth log)
    (past : ∀ x ∈ dates birth log, x.told = true → x.epoch.IsPast (readings log))
    (stale : ∀ e, s.published.word.isOf e = true → e.IsPast (readings log))
    (nr : Epoch.NeverReturn (readings log')) (starts : s.Starts log begun s' log') :
    s'.Sincere birth log' := by
  cases starts with
  | idle i e l published =>
    have nr' := nr.of_suffix (readings_suffix published.suffix)
    exact sincere_publishes (accounted_idle acc i e l) (isDated_idle d past nr') t.told
      ⟨nofun, nofun, t.endings⟩ published
  | dropped i e l tid o fs passes asides =>
    have nr' : Epoch.NeverReturn (e :: readings log) :=
      nr.of_suffix (readings_suffix (passes.suffix.trans asides.suffix))
    obtain ⟨vs, seen, -⟩ := passes
    have endings : EndingsHold birth (.walk tid o fs :: .started l e :: .epochRead i e :: log) :=
      ⟨nofun, nofun, nofun, t.endings⟩
    refine sincere_asides ⟨?_, fun _ => .inl ?_, endingsHold_visited endings seen⟩ asides
    · rw [attempts_started seen]
      rintro a (_ | ⟨_, ha⟩) atEnd
      · cases atEnd.1
      · exact t.told a ha atEnd
    · intro e' of
      rw [seen.readings_eq]
      exact (stale e' of).cons nr'
  | @installed k log₁ _ _ i e l l' tid o fs passes filled published =>
    have acc' : Accounted _ (attempts birth (.installed l' e :: log₁)) :=
      accounted_installed acc passes
    obtain ⟨vs, seen, -⟩ := passes
    have nr' : Epoch.NeverReturn (e :: readings log) :=
      nr.of_suffix (readings_suffix (seen.suffix.trans (.trans ⟨[_], rfl⟩ published.suffix)))
    have endings : EndingsHold birth (.walk tid o fs :: .started l e :: .epochRead i e :: log) :=
      ⟨nofun, nofun, nofun, t.endings⟩
    refine sincere_publishes acc' (isDated_installed d past nr' seen) ?_
      ⟨nofun, endingsHold_visited endings seen⟩ published
    rw [attempts, attempts_started seen]
    exact t.told

theorem sincere_read {e : Epoch} (t : s.Sincere birth log) (i : KindId)
    (nr : Epoch.NeverReturn (e :: readings log)) : s.Sincere birth (.epochRead i e :: log) where
  told := t.told
  failed fails := (t.failed fails).imp_left fun past d of => (past d of).cons nr
  endings := ⟨nofun, t.endings⟩

theorem sincere_turns (t : s.Sincere birth log) (acc : s.Accounted (attempts birth log))
    (d : s.IsDated birth log) (nr : Epoch.NeverReturn (readings log'))
    (turns : s.Turns log s' log') : s'.Sincere birth log' := by
  cases turns with
  | looked i e => exact sincere_read t i nr
  | resumed moves => exact sincere_moves t acc d moves
  | current i e _ asides moves =>
    have nr' : Epoch.NeverReturn (e :: readings log) :=
      nr.of_suffix (readings_suffix (asides.suffix.trans moves.suffix))
    have dated := isDated_visited (isDated_read d i nr') asides
    refine sincere_moves (sincere_asides (sincere_read t i nr') asides) ?_ dated moves
    rw [asides.attempts_same]
    exact acc
  | renewed i e stale starts asides moves =>
    have nr₁ := nr.of_suffix (readings_suffix (asides.suffix.trans moves.suffix))
    have nr' : Epoch.NeverReturn (e :: readings log) :=
      nr₁.of_suffix (readings_suffix starts.suffix)
    have read : s.Accounted (attempts birth (.epochRead i e :: log)) := acc
    have of : s.published.word.isOf e = false := by simpa [isStale] using stale
    have past := d.past_of_stale nr' of
    have word (e' : Epoch) (of' : s.published.word.isOf e' = true) :
        e'.IsPast (e :: readings log) := by
      refine (d.word e' of').isPast ?_
      intro same
      rw [s.published.word.isOf_congr same, of'] at of
      cases of
    have dated := isDated_starts (isDated_read d i nr') past starts nr₁
    have started := sincere_starts (sincere_read t i nr') read (isDated_read d i nr') past word nr₁
      starts
    refine sincere_moves (sincere_asides started asides) ?_ (isDated_visited dated asides) moves
    rw [asides.attempts_same]
    exact accounted_starts read starts

end Sweep

end StackSweep
