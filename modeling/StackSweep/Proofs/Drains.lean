import StackSweep.Proofs.Site

/-!
# What a drain that ends well has done

A drain gives up its lock again and again, and others may replace its walk, finish it or lose it.
When it ends well, a walk that was in place at some time during the call is complete, or there was
nothing to walk, unless an attempt was left without its walk.
-/

namespace StackSweep

/-- How many attempts there had been when the one that stands had begun. -/
def rank : List Attempt → Nat
  | [] => 0
  | a :: as => if a.stands then as.length + 1 else rank as

/-- What a call made at `since` may count as done when it ends: an attempt at the campaign with
this epoch has reached its end that was still the latest when the call was made, or later. -/
def Achieved (birth : Epoch) (since log : List Event) (e : Epoch) : Prop :=
  ∃ later a earlier, attempts birth log = later ++ a :: earlier ∧
    a.epoch.significant = e.significant ∧ a.IsOver ∧
    (attempts birth since).length ≤ earlier.length + 1

section rank

variable {a b : Attempt} {as : List Attempt}

theorem rank_cons_of_stands (h : a.stands = true) : rank (a :: as) = (a :: as).length := by
  simp [rank, h]

theorem rank_cons_of_not_stands (h : a.stands = false) : rank (a :: as) = rank as := by
  simp [rank, h]

theorem rank_le_length (as : List Attempt) : rank as ≤ as.length := by
  induction as with
  | nil => exact Nat.le_refl 0
  | cons a as ih =>
    unfold rank
    split
    · exact Nat.le_refl _
    · exact Nat.le_succ_of_le ih

theorem rank_modifyHead (f : Attempt → Attempt) (hf : ∀ a, (f a).stands = a.stands)
    (as : List Attempt) : rank (as.modifyHead f) = rank as := by
  cases as with
  | nil => rfl
  | cons a as => simp [rank, hf]

theorem not_stands_of_rank_ne (h : rank as ≠ as.length) :
    ∀ a ∈ as.head?, a.stands = false := by
  intro a ha
  cases as with
  | nil => cases ha
  | cons b as =>
    cases ha
    rw [← Bool.not_eq_true]
    exact fun stands => h (rank_cons_of_stands stands)

theorem exists_of_standing (h : standing as = some b) :
    ∃ later earlier, as = later ++ b :: earlier ∧ rank as = earlier.length + 1 := by
  induction as with
  | nil => cases h
  | cons a as ih =>
    by_cases ha : a.stands = true
    · rw [standing_cons_of_stands ha] at h
      cases h
      exact ⟨[], as, rfl, rank_cons_of_stands ha⟩
    · rw [Bool.not_eq_true] at ha
      rw [standing_cons_of_not_stands ha] at h
      obtain ⟨later, earlier, rfl, hr⟩ := ih h
      exact ⟨a :: later, earlier, rfl, (rank_cons_of_not_stands ha).trans hr⟩

end rank

namespace Sweep

variable {birth : Epoch} {s s' : Sweep} {log log' : List Event}

/-! ## Attempts do not go away -/

theorem publishes_rank (birth : Epoch) (h : s.Publishes log s' log') :
    (attempts birth log').length = (attempts birth log).length ∧
      rank (attempts birth log') = rank (attempts birth log) := by
  rcases h.cases_told birth with ⟨-, rfl⟩ | ⟨_, _, -, -, ha⟩
  · exact ⟨rfl, rfl⟩
  · rw [ha]
    exact ⟨List.length_modifyHead, rank_modifyHead (.tell _) (fun _ => rfl) _⟩

theorem visited_rank {vs : List (Visit × Verdict)} (birth : Epoch) (h : Visited log vs log') :
    (attempts birth log').length = (attempts birth log).length ∧
      rank (attempts birth log') = rank (attempts birth log) := by
  rw [h.attempts_eq]
  exact ⟨List.length_modifyHead, rank_modifyHead (.add vs) (fun _ => rfl) _⟩

theorem moves_rank (birth : Epoch) (h : s.Moves log s' log') :
    (attempts birth log').length = (attempts birth log).length ∧
      rank (attempts birth log') = rank (attempts birth log) := by
  cases h with
  | rest => exact ⟨rfl, rfl⟩
  | settle _ published => exact publishes_rank birth published
  | unwound _ passes =>
    obtain ⟨vs, seen, -⟩ := passes
    exact visited_rank birth seen
  | passed _ passes published asides =>
    obtain ⟨vs, seen, -⟩ := passes
    obtain ⟨l₁, r₁⟩ := visited_rank birth seen
    obtain ⟨l₂, r₂⟩ := publishes_rank birth published
    obtain ⟨l₃, r₃⟩ := visited_rank birth asides
    exact ⟨l₃.trans (l₂.trans l₁), r₃.trans (r₂.trans r₁)⟩

theorem starts_rank {begun : Bool} (birth : Epoch) (h : s.Starts log begun s' log') :
    (attempts birth log').length = (attempts birth log).length + 1 ∧
      rank (attempts birth log') =
        if begun then (attempts birth log').length else rank (attempts birth log) := by
  cases h with
  | idle i e l published =>
    obtain ⟨hl, hr⟩ := publishes_rank birth published
    rw [hl, hr]
    exact ⟨rfl, rfl⟩
  | dropped i e l tid o fs passes asides =>
    obtain ⟨vs, seen, -⟩ := passes
    rw [asides.attempts_same, attempts_started seen]
    exact ⟨rfl, rfl⟩
  | installed i e l l' tid o fs passes filled published =>
    obtain ⟨vs, seen, -⟩ := passes
    obtain ⟨hl, hr⟩ := publishes_rank birth published
    rw [hl, hr, attempts, attempts_started seen]
    exact ⟨rfl, rfl⟩

/-- A turn adds attempts and takes none away, and what stands after it is no older. -/
theorem turns_rank (birth : Epoch) (h : s.Turns log s' log') :
    (attempts birth log).length ≤ (attempts birth log').length ∧
      rank (attempts birth log) ≤ rank (attempts birth log') := by
  cases h with
  | looked => exact ⟨Nat.le_refl _, Nat.le_refl _⟩
  | resumed moves =>
    obtain ⟨hl, hr⟩ := moves_rank birth moves
    exact ⟨Nat.le_of_eq hl.symm, Nat.le_of_eq hr.symm⟩
  | current i e _ asides moves =>
    obtain ⟨hl, hr⟩ := moves_rank birth moves
    rw [hl, hr, asides.attempts_same]
    exact ⟨Nat.le_refl _, Nat.le_refl _⟩
  | @renewed begun _ log₁ _ _ _ i e _ starts asides moves =>
    obtain ⟨hl, hr⟩ := moves_rank birth moves
    obtain ⟨hl₁, hr₁⟩ := starts_rank birth starts
    rw [hl, hr, asides.attempts_same]
    have le := rank_le_length (attempts birth log)
    have same : attempts birth (.epochRead i e :: log) = attempts birth log := rfl
    rw [same] at hl₁ hr₁
    refine ⟨by omega, ?_⟩
    rw [hr₁]
    split <;> omega

theorem Follows.rank_eq_of_walk {as : List Attempt} (f : s.Follows as) {k : Walk}
    (hk : s.walk = some k) : rank as = as.length := by
  obtain ⟨a, rest, _, rfl, _, hi, _⟩ := f.of_walk hk
  exact rank_cons_of_stands (by simp [Attempt.stands, hi])

/-! ## Drains and the code -/

variable {ς ε : Type}

/-- A stage that is left to resume a drain leaves a walk in place. -/
theorem walk_of_resumes (h : Host ς ε) {stage : Stage} {s : Sweep} {w : World ς} {c : Option Nat}
    (next : (stage.turn h s w).1.next? = some (.resume c)) :
    ∃ k, (stage.turn h s w).2.1.walk = some k := by
  have batch {context : Option Nat} {s : Sweep} {w : World ς}
      (next : (Stage.drainBatch h context s w).1.next? = some (.resume c)) :
      ∃ k, (Stage.drainBatch h context s w).2.1.walk = some k := by
    revert next
    unfold Stage.drainBatch
    split
    · intro next
      cases next
    · split
      · rename_i k' w' _
        have keeps := (publish_keeps h { s with walk := some k' } w').1
        split <;> rename_i eq <;> rw [eq] at keeps
        · exact fun _ => ⟨k', keeps⟩
        · intro next
          cases next
      · intro next
        cases next
      · intro next
        cases next
      · intro next
        cases next
  cases stage with
  | drain context =>
    revert next
    simp only [Stage.turn, Stage.drainFirst]
    split
    · split
      · intro next
        cases next
      · exact batch
    · intro next
      cases next
  | resume context => exact batch next
  | approach f =>
    revert next
    simp only [Stage.turn]
    split
    · intro next
      cases next
    · intro next
      cases next
  | secure f =>
    revert next
    simp only [Stage.turn]
    split
    · intro next
      cases next
    · intro next
      cases next
  | increment => cases next
  | start => cases next
  | judge f => cases next
  | locate => cases next

theorem rank_eq_of_drainBatch (h : Host ς ε) (birth : Epoch) (context : Option Nat) {s : Sweep}
    {w : World ς} (full : rank (attempts birth w.log) = (attempts birth w.log).length) :
    rank (attempts birth (Stage.drainBatch h context s w).2.2.log) =
      (attempts birth (Stage.drainBatch h context s w).2.2.log).length := by
  obtain ⟨hl, hr⟩ := moves_rank birth (moves_drainBatch h context s w)
  rw [hl, hr, full]

/-- When a drain ends well in its first turn, the latest attempt stands, unless the drain had
nothing to start and found no walk. -/
theorem rank_of_drainFirst (h : Host ς ε) (hv : h.pacing.Valid) {context : Option Nat} {s : Sweep}
    {w : World ς} {a : Answer} (acc : s.Accounted (attempts birth w.log))
    (done : (Stage.drainFirst h context s w).1 = .finished (.ok a)) :
    rank (attempts birth (Stage.drainFirst h context s w).2.2.log) =
        (attempts birth (Stage.drainFirst h context s w).2.2.log).length ∨
      s.isStale (w.readEpoch h.kind).1 = false ∧
        s.Publishes (.epochRead h.kind (w.readEpoch h.kind).1 :: w.log)
          (Stage.drainFirst h context s w).2.1 (Stage.drainFirst h context s w).2.2.log := by
  revert done
  by_cases stale : s.isStale (w.readEpoch h.kind).1 = true
  · obtain ⟨begun, starts, ok⟩ := starts_start h hv context s (w.readEpoch h.kind).2
    simp only [Stage.drainFirst, ensureStarted, stale, if_true]
    split <;> rename_i eq
    · rename_i s₁ w₁
      rw [eq] at starts ok
      cases ok rfl
      obtain ⟨-, full⟩ := starts_rank birth starts
      rw [if_pos rfl] at full
      split
      · obtain ⟨hl, hr⟩ := publishes_rank birth (publishes_conclude h (o := .ok ()) (by simp) s₁ w₁)
        exact fun _ => .inl (by rw [Stage.ended, hl, hr, full])
      · exact fun _ => .inl (rank_eq_of_drainBatch h birth context full)
    · intro done
      exact (eq _ _ (Prod.ext (ok_of_ended done) rfl)).elim
  · rw [Bool.not_eq_true] at stale
    simp only [Stage.drainFirst, ensureStarted, stale, Bool.false_eq_true, if_false]
    split
    · exact fun _ => .inr ⟨trivial, publishes_conclude h (by simp) s (w.readEpoch h.kind).2⟩
    · rename_i k hk
      exact fun _ => .inl (rank_eq_of_drainBatch h birth context (acc.follows.rank_eq_of_walk hk))

end Sweep

/-- No call begins by resuming a drain. -/
theorem Call.stage?_openWith_ne_resume {ς ε : Type} (h : Host ς ε) (c : Call) (p : Published)
    (w : World ς) (context : Option Nat) :
    (c.openWith h p w).1.stage? ≠ some (.resume context) := by
  have securing (f : Option Frame) : (Call.securing f).stage? ≠ some (.resume context) := by
    cases f <;> nofun
  cases c with
  | request =>
    simp only [Call.openWith]
    split <;> nofun
  | iterate f =>
    simp only [Call.openWith]
    split <;> nofun
  | beforeUnwind => exact securing _
  | afterUnwind => exact securing _
  | _ => nofun

namespace Site

variable {ς ε : Type} {h : Host ς ε} {birth : Epoch} {site : Site ς}

/-! ## Calls that are not over -/

/-- Attempts at the time of a call are still there, and whoever resumes a drain finds standing what
stood then or what has come since. -/
structure Attended (birth : Epoch) (log : List Event) (b : Pending) : Prop where
  since : (attempts birth b.since).length ≤ (attempts birth log).length
  resumes : ∀ c, b.stage = .resume c → (attempts birth b.since).length ≤ rank (attempts birth log)

theorem Attended.turns {s s' : Sweep} {log log' : List Event} {b : Pending}
    (att : Attended birth log b) (h : s.Turns log s' log') : Attended birth log' b where
  since := Nat.le_trans att.since (Sweep.turns_rank birth h).1
  resumes c hc := Nat.le_trans (att.resumes c hc) (Sweep.turns_rank birth h).2

theorem Reachable.attended (r : Reachable h birth site) :
    ∀ p b, site.pending p = some b → Attended birth site.world.log b := by
  induction r with
  | created => nofun
  | @step site site' r st ih =>
    cases st with
    | change w same =>
      rw [same]
      exact ih
    | call p c free =>
      have same : attempts birth (site.call h p c).world.log = attempts birth site.world.log := by
        rcases log_call h p c site with eq | eq <;> rw [eq]
        rfl
      intro q b hb
      by_cases hq : q = p
      · simp only [Site.call, pending_assign, hq, if_true, Option.map_eq_some_iff] at hb
        obtain ⟨stage, opens, rfl⟩ := hb
        refine ⟨Nat.le_of_eq (by rw [same]), ?_⟩
        intro context hc
        cases hc
        exact absurd opens (Call.stage?_openWith_ne_resume h c _ _ context)
      · simp only [Site.call, pending_assign, hq, if_false] at hb
        have att := ih q b hb
        exact ⟨by rw [same]; exact att.since, by rw [same]; exact att.resumes⟩
    | turn p b hb =>
      have turns := Sweep.turns_turn h r.valid b.stage site.sweep site.world
      intro q b' hb'
      by_cases hq : q = p
      · simp only [Site.turn, pending_assign, hq, if_true, Option.map_eq_some_iff] at hb'
        obtain ⟨stage, next, rfl⟩ := hb'
        have att := (ih p b hb).turns turns
        refine ⟨att.since, ?_⟩
        intro context hc
        cases hc
        obtain ⟨k, hk⟩ := Sweep.walk_of_resumes h next
        have follows := (Sweep.accounted_turns r.accounted turns).follows
        rw [world_turn, follows.rank_eq_of_walk hk]
        exact att.since
      · simp only [Site.turn, pending_assign, hq, if_false] at hb'
        exact (ih q b' hb').turns turns

/-- If a drain starts nothing, finds no walk, and what stands has reached its end, then that is the
latest attempt: had a later one failed, the current epoch would be of the past. -/
theorem Reachable.rank_of_publishes (r : Reachable h birth site) {s' : Sweep} {log' : List Event}
    (notStale : site.sweep.isStale (site.current h) = false)
    (publishes :
      site.sweep.Publishes (.epochRead h.kind (site.current h) :: site.world.log) s' log')
    (dated : s'.IsDated birth log') (sincere : s'.Sincere birth log')
    (nr : Epoch.NeverReturn (readings log')) {c : Attempt} {later earlier : List Attempt}
    (split : attempts birth log' = later ++ c :: earlier) (he : s'.epoch = c.epoch)
    (atEnd : c.IsOver) : rank (attempts birth log') = (attempts birth log').length := by
  refine Classical.byContradiction ?_
  intro short
  have told : c.date.told = true := sincere.told c (by rw [split]; simp) atEnd
  have past : c.epoch.IsPast (readings log') := by
    refine dated.earlier c.date ?_ told
    rw [dates, split]
    cases later with
    | nil =>
      rw [split] at short
      exact absurd (rank_cons_of_stands atEnd.1) short
    | cons d later => simp
  have fails : ∀ a ∈ (attempts birth site.world.log).head?, a.stands = false := by
    obtain ⟨hl, hr⟩ := Sweep.publishes_rank birth publishes
    rw [hl, hr] at short
    exact not_stands_of_rank_ne short
  obtain ⟨he', hr⟩ : s'.epoch = site.sweep.epoch ∧
      readings log' = site.current h :: readings site.world.log := by
    rcases publishes.cases_told birth with ⟨rfl, rfl⟩ | ⟨_, _, rfl, hr, -⟩
    · exact ⟨rfl, rfl⟩
    · exact ⟨rfl, hr⟩
  rw [hr] at past nr
  have of : site.sweep.published.word.isOf (site.current h) = true := by
    simpa [Sweep.isStale] using notStale
  rcases (r.sincere nr.tail).failed fails with gone | of'
  · exact (gone _ of).ne_of_neverReturn nr rfl
  · refine past.2 _ rfl ?_
    rw [← he, he']
    exact (ProgressWord.significant_eq of' of).symm

/-- A drain that ends well leaves a sweep without frames to process, which says that its campaign
is over. It has achieved that exactly if no attempt has been left without its walk. -/
theorem Reachable.achieved_iff (r : Reachable h birth site) {p : Nat} {b : Pending}
    (hb : site.pending p = some b) {context : Option Nat}
    (drain : b.stage = .drain context ∨ b.stage = .resume context)
    (nr : Epoch.NeverReturn (readings (site.turn h p b).world.log)) {a : Answer}
    (done : (b.stage.turn h site.sweep site.world).1 = .finished (.ok a)) :
    (site.turn h p b).sweep.published = .settled (site.turn h p b).sweep.epoch ∧
      (Achieved birth b.since (site.turn h p b).world.log (site.turn h p b).sweep.epoch ↔
        ¬ Orphaned (attempts birth (site.turn h p b).world.log)) := by
  have r' : Reachable h birth (site.turn h p b) := r.step (.turn p b hb)
  have settled := Sweep.isSettled_of_drained h drain done
  have follows := r'.accounted.follows
  have ended := Sweep.endReached_iff follows settled.exhausted
    (fun a ha => (r'.sincere nr).told a (List.mem_of_mem_tail ha)) (r'.isDated nr).attempts_apart
  refine ⟨settled.published, ?_, ?_⟩
  · intro achieved
    obtain ⟨later, c, earlier, split, same, atEnd, -⟩ := achieved
    refine ended.1 ⟨c, ?_, same, atEnd⟩
    rw [split]
    simp
  · intro intact
    obtain ⟨c, hc, he, atEnd⟩ := follows.standing_isOver settled.exhausted intact
    obtain ⟨later, earlier, split, hr⟩ := exists_of_standing hc
    refine ⟨later, c, earlier, split, by rw [he], atEnd, ?_⟩
    rw [← hr]
    have att := (r.attended p b hb).turns (Sweep.turns_turn h r.valid b.stage site.sweep site.world)
    rcases drain with first | again
    · have turn : b.stage.turn h site.sweep site.world =
          Stage.drainFirst h context site.sweep site.world := by rw [first, Stage.turn]
      rw [turn] at done
      have full : rank (attempts birth (site.turn h p b).world.log) =
          (attempts birth (site.turn h p b).world.log).length := by
        rcases Sweep.rank_of_drainFirst h r.valid r.accounted done with full | ⟨notStale, publishes⟩
        · rw [world_turn, turn, full]
        · rw [← turn] at publishes
          exact r.rank_of_publishes notStale publishes (r'.isDated nr) (r'.sincere nr) nr split he
            atEnd
      rw [full]
      exact att.since
    · exact att.resumes context again

/-- A drain that resumes while an attempt is without its walk ends well nevertheless. -/
theorem Reachable.resumes_orphaned (r : Reachable h birth site) {p : Nat} {b : Pending}
    {context : Option Nat} (again : b.stage = .resume context)
    (orphaned : Orphaned (attempts birth site.world.log)) :
    (b.stage.turn h site.sweep site.world).1 = .finished (.ok .nothing) ∧
      Orphaned (attempts birth (site.turn h p b).world.log) := by
  have gone : site.sweep.walk = none := by
    cases hk : site.sweep.walk with
    | none => rfl
    | some k =>
      obtain ⟨a, rest, fs, has, -, hi, -⟩ := r.accounted.follows.of_walk hk
      rw [has] at orphaned
      exact absurd orphaned (not_orphaned_of_stands (by simp [Attempt.stands, hi]))
  have turn : b.stage.turn h site.sweep site.world =
      Stage.ended (site.sweep.conclude h (.ok ()) site.world) := by
    rw [again]
    simp only [Stage.turn, Stage.drainBatch, gone]
  have concluded : (site.sweep.conclude h (.ok ()) site.world).1 = .ok () := by
    simp only [Sweep.conclude, Sweep.publish, gone]
  refine ⟨?_, ?_⟩
  · rw [turn, Stage.ended, concluded]
    rfl
  · have publishes := Sweep.publishes_conclude h (o := .ok ()) (by simp) site.sweep site.world
    rw [world_turn, turn, Stage.ended]
    rcases publishes.cases_told birth with ⟨-, eq⟩ | ⟨_, _, -, -, eq⟩
    · rw [eq]
      exact orphaned
    · rw [eq]
      exact (orphaned_tell _).2 orphaned

/-- What it means that a campaign is published as over, or that a drain ends well. Either means what
it should exactly if no attempt has been left without its walk. If one has, a drain that resumes
ends well all the same, and publishes that the campaign of that attempt is over. -/
theorem endings_of_reachable (r : Reachable h birth site)
    (nr : Epoch.NeverReturn (readings site.world.log)) :
    EndingsHold birth site.world.log ∧
    (∀ p b context a, site.pending p = some b →
      b.stage = .drain context ∨ b.stage = .resume context →
      Epoch.NeverReturn (readings (site.turn h p b).world.log) →
      (b.stage.turn h site.sweep site.world).1 = .finished (.ok a) →
      (site.turn h p b).sweep.published = .settled (site.turn h p b).sweep.epoch ∧
        (Achieved birth b.since (site.turn h p b).world.log (site.turn h p b).sweep.epoch ↔
          ¬ Orphaned (attempts birth (site.turn h p b).world.log))) ∧
    ∀ p b context, site.pending p = some b → b.stage = .resume context →
      Orphaned (attempts birth site.world.log) →
      (b.stage.turn h site.sweep site.world).1 = .finished (.ok .nothing) ∧
        Orphaned (attempts birth (site.turn h p b).world.log) := by
  refine ⟨(r.sincere nr).endings, ?_,
    fun p b context hb again orphaned => r.resumes_orphaned again orphaned⟩
  intro p b context a hb drain nr' done
  exact r.achieved_iff hb drain nr' done

/-- In the run the start that failed has left the first attempt without its walk. The drain ends
well nevertheless, the campaign counts as over, and the outermost frame has never been processed. -/
theorem endings_of_bereft :
    ∃ b, bereft.pending 0 = some b ∧
      (b.stage.turn moody bereft.sweep bereft.world).1 = .finished (.ok .nothing) ∧
      (bereft.turn moody 0 b).sweep.published = .settled 1 ∧
      ¬ Achieved 0 b.since (bereft.turn moody 0 b).world.log 1 ∧
      ∀ a ∈ attempts 0 (bereft.turn moody 0 b).world.log, ∀ f ∈ processedIn a.visits, f.id ≠ 3 := by
  have stages : (bereft.pending 0).map Pending.stage = some (.resume none) := by decide +kernel
  obtain ⟨b, hb, again⟩ := Option.map_eq_some_iff.1 stages
  have turned : bereft.turn moody 0 b = bereft.next 0 := by rw [next, hb, Option.elim]
  obtain ⟨-, drains, resumes⟩ := endings_of_reachable reachable_bereft (by decide +kernel)
  obtain ⟨done, orphaned⟩ := resumes 0 b none hb again (by decide +kernel)
  obtain ⟨-, iff⟩ := drains 0 b none .nothing hb (.inr again) (by rw [turned]; decide +kernel) done
  have epoch : (bereft.turn moody 0 b).sweep.epoch = 1 := by
    rw [turned]
    decide +kernel
  rw [epoch] at iff
  refine ⟨b, hb, done, ?_, fun achieved => iff.1 achieved orphaned, ?_⟩
  · rw [turned]
    decide +kernel
  · rw [turned]
    decide +kernel

end Site

end StackSweep
