import StackSweep.Proofs.Finishing

/-!
# When a campaign is over

A walk stays in place after its last frame, and steps and drains still run on it. While the epoch
stays none of them does anything that matters: a turn leaves the sweep as it is, publishes at most
what has been published already, and ends well.
-/

namespace StackSweep

variable {ς ε : Type}

/-- The entry tells of no processing, no walk, no start and no end, and of no publication of
anything but this. -/
def Event.Repeats (p : Published) : Event → Prop
  | .epochRead .. => True
  | .boundaryStored _ b => b = p.boundary
  | .wordStored _ w => w = p.word
  | e => e.isAside = true

/-- Nothing new has happened between the two logs. -/
def Uneventful (p : Published) (log log' : List Event) : Prop := Adds (Event.Repeats p) log log'

theorem Event.repeats_of_isAside {p : Published} {e : Event} (aside : e.isAside = true) :
    e.Repeats p := by
  cases e <;> first | exact aside | trivial

theorem Uneventful.of_asides {p : Published} {log log' : List Event}
    (asides : Visited log [] log') : Uneventful p log log' :=
  Adds.of_visited (fun _ => Event.repeats_of_isAside) (fun visits => absurd rfl visits) asides

/-! ## Walks without frames -/

namespace Walk

variable {h : Host ς ε} {k : Walk}

theorem step_of_done (done : k.ahead = []) (sh : Shared) (w : World ς) :
    k.step h sh w = (.ok (), k, (Bracket.enter w).1.leave (Bracket.enter w).2) := by
  obtain ⟨cursor, ahead, trail⟩ := k
  cases done
  rfl

theorem batch_of_done (done : k.ahead = []) (sh : Shared) (n : Nat) (w : World ς) :
    k.batch h sh n w = (.ok .exhausted, k, (Bracket.enter w).1.leave (Bracket.enter w).2) := by
  obtain ⟨cursor, ahead, trail⟩ := k
  cases done
  rfl

/-- A bracket with nothing in it. -/
theorem visited_bracket (w : World ς) :
    Visited w.log [] ((Bracket.enter w).1.leave (Bracket.enter w).2).log :=
  (Bracket.visited_enter w).trans (Bracket.visited_leave _ _)

end Walk

/-! ## Turns on a settled sweep -/

namespace Sweep

variable {h : Host ς ε} {s : Sweep} {w : World ς}

/-- What was done left the sweep as it was, with nothing new in the log. -/
structure Rests (s : Sweep) (log : List Event) (r : Sweep × World ς) : Prop where
  sweep : r.1 = s
  uneventful : Uneventful s.published log r.2.log

/-- The turn ends the operation well. Only a stage that was to make a frame safe goes on, to see
that it is. -/
def Settles (stage : Stage) (t : Turn ε) : Prop :=
  (∃ a, t = .finished (.ok a)) ∨ ∃ f, stage = .approach f ∧ t = .onward (.secure f)

theorem Rests.after {log log₁ : List Event} {r : Sweep × World ς} (rests : s.Rests log₁ r)
    (before : Uneventful s.published log log₁) : s.Rests log r :=
  ⟨rests.sweep, before.trans rests.uneventful⟩

/-- What a settled sweep publishes has been published. -/
theorem conclude_of_isSettled (settled : s.IsSettled) :
    (s.conclude h (.ok ()) w).1 = .ok () ∧ s.Rests w.log (s.conclude h (.ok ()) w).2 := by
  have word : s.published.word = .pack s.epoch true := by rw [settled.published]; rfl
  have publish : s.publish h w = (none, s.storeDone h w) := by
    unfold publish
    split
    · rename_i k hk
      simp [Walk.hasNext, settled.exhausted k hk]
    · rfl
  have same : { s with published := .settled s.epoch } = s := by rw [← settled.published]
  have log := log_storeDone h s w
  rw [if_pos word] at log
  unfold conclude
  rw [publish]
  refine ⟨rfl, same, ?_⟩
  rw [log]
  refine .cons (.cons (.refl _) ?_) word.symm
  rw [Event.Repeats, settled.published]
  rfl

theorem increment_of_isSettled (settled : s.IsSettled)
    (current : s.isStale (w.readEpoch h.kind).1 = false) :
    (s.increment h w).1 = .ok () ∧ s.Rests w.log (s.increment h w).2 := by
  have read : Uneventful s.published w.log (w.readEpoch h.kind).2.log :=
    .cons (.refl _) trivial
  unfold increment
  simp only [current, Bool.false_eq_true, if_false]
  split
  · exact ⟨rfl, rfl, read⟩
  · rename_i k hk
    rw [Walk.step_of_done (settled.exhausted k hk)]
    have same : { s with walk := some k } = s := by rw [← hk]
    simp only
    rw [same]
    obtain ⟨ok, rests⟩ := conclude_of_isSettled (h := h) settled
    exact ⟨ok, rests.after (read.trans (Uneventful.of_asides (Walk.visited_bracket _)))⟩

theorem drainBatch_of_isSettled (context : Option Nat) (settled : s.IsSettled) :
    (Stage.drainBatch h context s w).1 = .finished (.ok .nothing) ∧
      s.Rests w.log (Stage.drainBatch h context s w).2 := by
  have ended {log : List Event} {r : Outcome ε Unit × Sweep × World ς} (ok : r.1 = .ok ())
      (rests : s.Rests log r.2) :
      (Stage.ended r).1 = .finished (.ok .nothing) ∧ s.Rests log (Stage.ended r).2 := by
    refine ⟨?_, rests⟩
    rw [Stage.ended, ok]
    rfl
  unfold Stage.drainBatch
  split
  · exact ended (conclude_of_isSettled settled).1 (conclude_of_isSettled settled).2
  · rename_i k hk
    rw [Walk.batch_of_done (settled.exhausted k hk)]
    have same : { s with walk := some k } = s := by rw [← hk]
    simp only
    rw [same]
    obtain ⟨ok, rests⟩ := conclude_of_isSettled (h := h) settled
    exact ended ok (rests.after (.of_asides (Walk.visited_bracket _)))

/-- Whatever the stage, its turn changes nothing once the campaign is over. -/
theorem turn_of_isSettled (settled : s.IsSettled) {stage : Stage}
    (current : (∀ c, stage ≠ .resume c) → s.isStale (w.readEpoch h.kind).1 = false) :
    Settles stage (stage.turn h s w).1 ∧ s.Rests w.log (stage.turn h s w).2 := by
  have read : Uneventful s.published w.log (w.readEpoch h.kind).2.log :=
    .cons (.refl _) trivial
  have started (context : Option Nat) (now : s.isStale (w.readEpoch h.kind).1 = false) :
      s.ensureStarted h context w = (.ok (), s, (w.readEpoch h.kind).2) := by
    unfold ensureStarted
    simp only [now, Bool.false_eq_true, if_false]
  cases stage with
  | increment =>
    obtain ⟨ok, rests⟩ := increment_of_isSettled settled (current (by simp))
    simp only [Stage.turn, Stage.ended, ok]
    exact ⟨.inl ⟨_, rfl⟩, rests⟩
  | start =>
    simp only [Stage.turn, Stage.ended, started none (current (by simp))]
    exact ⟨.inl ⟨_, rfl⟩, rfl, read⟩
  | drain context =>
    simp only [Stage.turn, Stage.drainFirst, started context (current (by simp))]
    split
    · obtain ⟨ok, rests⟩ := conclude_of_isSettled (h := h) (w := (w.readEpoch h.kind).2) settled
      simp only [Stage.ended, ok]
      exact ⟨.inl ⟨_, rfl⟩, rests.after read⟩
    · obtain ⟨ok, rests⟩ := drainBatch_of_isSettled (h := h) context settled
      exact ⟨.inl ⟨_, ok⟩, rests.after (read.cons rfl)⟩
  | resume context =>
    obtain ⟨ok, rests⟩ := drainBatch_of_isSettled (h := h) (w := w) context settled
    exact ⟨.inl ⟨_, ok⟩, rests⟩
  | secure f =>
    have safe : (s.isSafe h f w).1 = true := by
      show s.isSafeAt (w.readEpoch h.kind).1 _ = true
      have done : s.published.word.isDone = true := by
        rw [settled.published]
        exact ProgressWord.isDone_pack _ _
      unfold isSafeAt
      rw [current (by simp), done]
      rfl
    simp only [Stage.turn, safe, if_true]
    exact ⟨.inl ⟨_, rfl⟩, rfl, read⟩
  | approach f =>
    obtain ⟨ok, rests⟩ := increment_of_isSettled settled (current (by simp))
    simp only [Stage.turn]
    generalize s.increment h w = r at ok rests ⊢
    obtain ⟨o, s', w'⟩ := r
    cases ok
    exact ⟨.inr ⟨f, rfl, rfl⟩, rests⟩
  | judge f => exact ⟨.inl ⟨_, rfl⟩, rfl, read⟩
  | locate => exact ⟨.inl ⟨_, rfl⟩, rfl, read⟩

end Sweep

/-- A call that finds the campaign started without the lock is settled. Any other goes straight to
its stage. -/
theorem Call.openWith_of_current {h : Host ς ε} {p : Published} {w : World ς} (c : Call)
    (current : p.word.isOf (w.readEpoch h.kind).1 = true) :
    (∃ w', c.openWith h p w = (.settled, w') ∧ (w' = w ∨ w' = (w.readEpoch h.kind).2)) ∨
      ∃ stage, c.openWith h p w = (.needs stage, w) ∧ ∀ f, stage ≠ .approach f := by
  have securing (f : Option Frame) : (∃ w', (securing f, w) = (.settled, w') ∧
      (w' = w ∨ w' = (w.readEpoch h.kind).2)) ∨
        ∃ stage, (Call.securing f, w) = (.needs stage, w) ∧ ∀ f, stage ≠ .approach f := by
    cases f with
    | none => exact .inl ⟨w, rfl, .inl rfl⟩
    | some f => exact .inr ⟨.secure f, rfl, nofun⟩
  cases c with
  | increment => exact .inr ⟨_, rfl, nofun⟩
  | request =>
    refine .inl ⟨_, ?_, .inr rfl⟩
    simp only [Call.openWith, current, if_true]
  | drain context => exact .inr ⟨_, rfl, nofun⟩
  | secure f => exact .inr ⟨_, rfl, nofun⟩
  | iterate f =>
    simp only [Call.openWith]
    split
    · exact .inr ⟨_, rfl, nofun⟩
    · exact .inl ⟨w, rfl, .inl rfl⟩
  | beforeUnwind => exact securing _
  | afterUnwind => exact securing _
  | judge f => exact .inr ⟨_, rfl, nofun⟩
  | locate => exact .inr ⟨_, rfl, nofun⟩

namespace Sweep

variable {h : Host ς ε} {s : Sweep} {w : World ς}

theorem IsSettled.current {e : Epoch} (settled : s.IsSettled)
    (same : s.epoch.significant = e.significant) : s.published.word.isOf e = true := by
  rw [settled.published]
  exact ProgressWord.isOf_pack.2 same

/-- A call on a settled sweep ends well in its first turn and changes nothing. -/
theorem run_of_isSettled (settled : s.IsSettled)
    (same : s.epoch.significant = (w.readEpoch h.kind).1.significant) (c : Call) (fuel : Nat) :
    (∃ a, (c.run h (fuel + 1) s w).1 = some (.ok a)) ∧
      s.Rests w.log (c.run h (fuel + 1) s w).2 := by
  have current := settled.current same
  rcases c.openWith_of_current current with ⟨w', opening, world⟩ | ⟨stage, opening, other⟩
  · simp only [Call.run, opening]
    refine ⟨⟨.nothing, rfl⟩, rfl, ?_⟩
    rcases world with rfl | rfl
    · exact .refl _
    · exact .cons (.refl _) trivial
  · have now : s.isStale (w.readEpoch h.kind).1 = false := by simp [isStale, current]
    have turned : Settles stage (stage.turn h s w).1 ∧ s.Rests w.log (stage.turn h s w).2 :=
      turn_of_isSettled settled fun _ => now
    obtain ⟨settles, rests⟩ := turned
    simp only [Call.run, opening, Stage.run]
    rcases settles with ⟨a, ok⟩ | ⟨f, approach, -⟩
    · generalize stage.turn h s w = r at ok rests ⊢
      obtain ⟨t, s', w'⟩ := r
      cases ok
      exact ⟨⟨a, rfl⟩, rests⟩
    · exact absurd approach (other f)

end Sweep

namespace Site

variable {h : Host ς ε} {birth : Epoch} {site site' : Site ς}

/-- When the word in memory says that the current campaign is over, it is over for the sweep. -/
theorem Reachable.isSettled_of_done (r : Reachable h birth site)
    (nr : Epoch.NeverReturn (site.current h :: readings site.world.log))
    (done : site.sweep.phase (site.current h) = .done) :
    site.sweep.IsSettled ∧ site.sweep.epoch.significant = (site.current h).significant := by
  have finishes := (r.finishes nr.tail).toFaithful
  unfold Sweep.phase ProgressWord.phase at done
  split at done
  · cases done
  · rename_i of
    rw [Bool.not_eq_true, Bool.not_eq_false'] at of
    split at done
    · rename_i closed
      have word := ProgressWord.eq_pack of
      rw [closed] at word
      have ended : Ended birth (site.current h) site.world.log := by
        obtain ⟨p, hp, same⟩ := finishes.told
        exact ⟨p, hp, same.trans word⟩
      have own : (site.current h).significant = site.sweep.epoch.significant := by
        rcases finishes.others _ ended with own | past
        · exact own
        · exact absurd rfl (past.ne_of_neverReturn nr)
      obtain ⟨word, exhausted⟩ := finishes.own (ended.congr own)
      refine ⟨⟨?_, exhausted⟩, own.symm⟩
      have boundary := finishes.boundary closed
      generalize site.sweep.published = p at word boundary ⊢
      obtain ⟨b, w⟩ := p
      cases word
      cases boundary
      rfl
    · cases done

/-- What has become of a site at which the current campaign was over. -/
structure StaysOver (h : Host ς ε) (site site' : Site ς) : Prop where
  sweep : site'.sweep = site.sweep
  /-- No frame was processed, no walk begun, no start or end announced, and nothing published but
  what was published before. -/
  uneventful : Uneventful site.sweep.published site.world.log site'.world.log
  turns : (site'.current h).significant = (site.current h).significant → ∀ p b,
    site'.pending p = some b → Sweep.Settles b.stage (b.stage.turn h site'.sweep site'.world).1
  calls : (site'.current h).significant = (site.current h).significant → ∀ c fuel,
    (∃ a, (Call.run h (fuel + 1) c site'.sweep site'.world).1 = some (.ok a)) ∧
      site'.sweep.Rests site'.world.log (Call.run h (fuel + 1) c site'.sweep site'.world).2

theorem isStale_of_isSettled (settled : site.sweep.IsSettled)
    (same : site.sweep.epoch.significant = (site.current h).significant) :
    site.sweep.isStale (site.current h) = false := by
  simp [Sweep.isStale, settled.current same]

/-- One step of anybody's. -/
theorem Step.rests {e : Epoch} (st : Step h site site') (settled : site.sweep.IsSettled)
    (own : site.sweep.epoch.significant = e.significant) (steady : Steady e site site') :
    site.sweep.Rests site.world.log (site'.sweep, site'.world) := by
  cases st with
  | change w same => exact ⟨rfl, by rw [same]; exact .refl _⟩
  | call p c _ =>
    refine ⟨rfl, ?_⟩
    rcases log_call h p c site with same | same
    · rw [same]
      exact .refl _
    · rw [same]
      exact .cons (.refl _) trivial
  | turn p b _ =>
    refine (Sweep.turn_of_isSettled (h := h) settled ?_).2
    intro asks
    exact isStale_of_isSettled settled
      (own.trans (steady.reading (Sweep.turn_suffix h asks site.sweep site.world)).symm)

theorem Reachable.rests {e : Epoch} (r : Reachable h birth site) (settled : site.sweep.IsSettled)
    (own : site.sweep.epoch.significant = e.significant)
    (run : Relation.ReflTransGen (Step h) site site') (steady : Steady e site site') :
    site.sweep.Rests site.world.log (site'.sweep, site'.world) := by
  induction run with
  | refl => exact ⟨rfl, .refl _⟩
  | @tail site₁ site₂ run st ih =>
    obtain ⟨before, now⟩ := steady.parts (r.suffix run) (st.suffix r.valid)
    obtain ⟨same, uneventful⟩ := ih before
    simp only at same uneventful
    rw [← same] at settled own uneventful ⊢
    exact (st.rests settled own now).after uneventful

/-- Each campaign is announced to be over at most once. That is done by the first publication which
says so, when nothing more is visited for the campaign, and it is done for every walk that has
passed its last frame. Once the current campaign is over, no call does anything as long as the epoch
stays, and all of them succeed. -/
theorem announcesEnds_of_reachable (r : Reachable h birth site)
    (nr : Epoch.NeverReturn (readings site.world.log)) :
    site.AnnouncesEnds birth ∧
    (Epoch.NeverReturn (site.current h :: readings site.world.log) →
      site.sweep.phase (site.current h) = .done →
      ∀ site', Relation.ReflTransGen (Step h) site site' → Steady (site.current h) site site' →
        site.StaysOver h site') := by
  refine ⟨r.announcesEnds nr, ?_⟩
  intro nr' done site' run steady
  obtain ⟨settled, own⟩ := r.isSettled_of_done nr' done
  obtain ⟨same, uneventful⟩ := r.rests settled own run steady
  simp only at same uneventful
  refine ⟨same, uneventful, ?_, ?_⟩
  · intro current p b _
    rw [← same] at settled own
    exact (Sweep.turn_of_isSettled (h := h) settled fun _ =>
      isStale_of_isSettled settled (own.trans current.symm)).1
  · intro current c fuel
    rw [← same] at settled own
    exact Sweep.run_of_isSettled settled (own.trans current.symm) c fuel

/-- The campaign is over, and a drain and an increment that follow find nothing to do. -/
theorem announcesEnds_of_completed :
    finishes completed.world.log = [1] ∧
    completed.stepped.sweep = completed.sweep ∧
    finishes completed.stepped.world.log = [1] ∧
    (∃ a, (Call.run moody 1 (.drain none) completed.stepped.sweep completed.stepped.world).1 =
      some (.ok a)) := by
  obtain ⟨-, stays⟩ := announcesEnds_of_reachable reachable_completed (by decide +kernel)
  have closed := stays (by decide +kernel) (by decide +kernel) completed.stepped
    (run_stepped rfl) (by decide +kernel)
  have again := (closed.calls (by decide +kernel) (.drain none) 0).1
  exact ⟨by decide +kernel, closed.sweep, by decide +kernel, again⟩

end Site

end StackSweep
