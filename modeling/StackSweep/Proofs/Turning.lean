import StackSweep.Sweep.Stage
import StackSweep.Proofs.Passing

/-!
# What a turn does

Everything that one turn with the lock can do to a sweep and its log. `turns_turn` says it of every
stage at once, and the invariants of later modules are proved case by case from it: a turn may look
at the epoch, start the campaign anew, and move the walk that is then in place, in this order.
-/

namespace StackSweep.Sweep

/-- Publishing: the trailing boundary while frames are left, or that the campaign is over. Nothing
is published if frames are left and there is no boundary. -/
inductive Publishes (s : Sweep) (log : List Event) : Sweep → List Event → Prop
  | boundary {k : Walk} (l : Label) : s.walk = some k → k.ahead ≠ [] →
      0 < k.trail.trailing.addr →
      Publishes s log { s with published := ⟨k.trail.trailing, .pack s.epoch false⟩ }
        (.wordStored l (.pack s.epoch false) :: .boundaryStored l k.trail.trailing :: log)
  | ending (l : Label) : (∀ k, s.walk = some k → k.ahead = []) →
      Publishes s log { s with published := .settled s.epoch }
        ((if s.published.word = .pack s.epoch true then [] else [.finished l s.epoch]) ++
          .wordStored l (.pack s.epoch true) :: .boundaryStored l .none :: log)
  | stuck {k : Walk} : s.walk = some k → k.ahead ≠ [] → k.trail.trailing.addr = 0 →
      Publishes s log s log

/-- Starting a campaign, after it was found that this has not been done. Whether that succeeded
stands before the result. -/
inductive Starts (s : Sweep) (log : List Event) : Bool → Sweep → List Event → Prop
  /-- The thread has no stack to walk. -/
  | idle {s' log'} (i : KindId) (e : Epoch) (l : Label) :
      Publishes { s with walk := none, epoch := e }
        (.started l e :: .epochRead i e :: log) s' log' →
      Starts s log true s' log'
  /-- The first steps did not succeed. -/
  | dropped {u k log₁ log'} (i : KindId) (e : Epoch) (l : Label) (tid : Nat) (o : WalkOptions)
      (fs : List Frame) :
      (Walk.ofFrames fs).Passes (.walk tid o fs :: .started l e :: .epochRead i e :: log) u k log₁ →
      Visited log₁ [] log' → Starts s log false { s with walk := none } log'
  | installed {k log₁ s' log'} (i : KindId) (e : Epoch) (l l' : Label) (tid : Nat)
      (o : WalkOptions) (fs : List Frame) :
      (Walk.ofFrames fs).Passes (.walk tid o fs :: .started l e :: .epochRead i e :: log) False k
        log₁ →
      (Ascending fs → k.ahead ≠ [] → 0 < k.trail.trailing.addr ∧ 0 < k.trail.leading.addr) →
      Publishes { s with walk := some k, epoch := e } (.installed l' e :: log₁) s' log' →
      Starts s log true s' log'

/-- Moving on the walk that is in place. -/
inductive Moves (s : Sweep) (log : List Event) : Sweep → List Event → Prop
  | rest : Moves s log s log
  /-- Without a walk there is nothing to move. -/
  | settle {s' log'} : s.walk = none → Publishes s log s' log' → Moves s log s' log'
  | unwound {k k' log'} : s.walk = some k → k.Passes log True k' log' →
      Moves s log { s with walk := some k' } log'
  | passed {k k' log₁ s' log₂ log'} : s.walk = some k → k.Passes log False k' log₁ →
      Publishes { s with walk := some k' } log₁ s' log₂ → Visited log₂ [] log' →
      Moves s log s' log'

/-- A turn. -/
inductive Turns (s : Sweep) (log : List Event) : Sweep → List Event → Prop
  | looked (i : KindId) (e : Epoch) : Turns s log s (.epochRead i e :: log)
  /-- A drain that resumes does not look at the epoch. -/
  | resumed {s' log'} : Moves s log s' log' → Turns s log s' log'
  | current {log₁ s' log'} (i : KindId) (e : Epoch) : s.isStale e = false →
      Visited (.epochRead i e :: log) [] log₁ → Moves s log₁ s' log' → Turns s log s' log'
  | renewed {begun s₁ log₁ log₂ s' log'} (i : KindId) (e : Epoch) : s.isStale e = true →
      Starts s (.epochRead i e :: log) begun s₁ log₁ → Visited log₁ [] log₂ →
      Moves s₁ log₂ s' log' → Turns s log s' log'

section suffix

variable {s s' : Sweep} {log log' : List Event}

theorem Publishes.suffix (h : Publishes s log s' log') : log <:+ log' := by
  cases h with
  | boundary => exact ⟨[_, _], rfl⟩
  | ending => exact ⟨_ ++ [_, _], List.append_assoc _ _ _⟩
  | stuck => exact List.suffix_refl _

theorem Starts.suffix {begun : Bool} (h : Starts s log begun s' log') : log <:+ log' := by
  cases h with
  | idle _ _ _ published => exact .trans ⟨[_, _], rfl⟩ published.suffix
  | dropped _ _ _ _ _ _ passes asides =>
    exact .trans ⟨[_, _, _], rfl⟩ (passes.suffix.trans asides.suffix)
  | installed _ _ _ _ _ _ _ passes _ published =>
    exact .trans ⟨[_, _, _], rfl⟩ (passes.suffix.trans (.trans ⟨[_], rfl⟩ published.suffix))

theorem Moves.suffix (h : Moves s log s' log') : log <:+ log' := by
  cases h with
  | rest => exact List.suffix_refl _
  | settle _ published => exact published.suffix
  | unwound _ passes => exact passes.suffix
  | passed _ passes published asides =>
    exact passes.suffix.trans (published.suffix.trans asides.suffix)

theorem Turns.suffix (h : Turns s log s' log') : log <:+ log' := by
  cases h with
  | looked => exact List.suffix_cons _ _
  | resumed moves => exact moves.suffix
  | current _ _ _ asides moves => exact .trans ⟨[_], rfl⟩ (asides.suffix.trans moves.suffix)
  | renewed _ _ _ starts asides moves =>
    exact .trans ⟨[_], rfl⟩ (starts.suffix.trans (asides.suffix.trans moves.suffix))

end suffix

variable {ς ε : Type}

/-! ## From the code to the relations -/

theorem exhausted_of_no_walk {s : Sweep} (hk : s.walk = none) :
    ∀ k, s.walk = some k → k.ahead = [] := by
  intro k hk'
  rw [hk] at hk'
  cases hk'

theorem log_storeDone (h : Host ς ε) (s : Sweep) (w : World ς) :
    (s.storeDone h w).2.log =
      (if s.published.word = .pack s.epoch true then [] else [.finished (h.label w) s.epoch]) ++
        .wordStored (h.label w) (.pack s.epoch true) :: .boundaryStored (h.label w) .none ::
          w.log := by
  by_cases same : s.published.word = .pack s.epoch true
  · simp [storeDone, store, same]
  · simp [storeDone, store, same]

theorem publishes_storeDone (h : Host ς ε) {s : Sweep} (hk : ∀ k, s.walk = some k → k.ahead = [])
    (w : World ς) : Publishes s w.log (s.storeDone h w).1 (s.storeDone h w).2.log := by
  rw [log_storeDone]
  exact .ending (h.label w) hk

theorem publishes_publish (h : Host ς ε) (s : Sweep) (w : World ς) :
    Publishes s w.log (s.publish h w).2.1 (s.publish h w).2.2.log := by
  unfold publish
  split
  · rename_i k hk
    split
    · rename_i left
      rw [Walk.hasNext_iff] at left
      split
      · rename_i missing
        exact .stuck hk left (by simpa [Position.isNone] using missing)
      · rename_i found
        refine .boundary (h.label w) hk left (Position.addr_pos_iff.2 ?_)
        simpa [Position.isNone_iff] using found
    · rename_i done
      refine publishes_storeDone h ?_ w
      intro k' hk'
      cases hk.symm.trans hk'
      simpa [Walk.hasNext] using done
  · rename_i hk
    exact publishes_storeDone h (exhausted_of_no_walk hk) w

/-- An operation that does not unwind concludes by publishing. -/
theorem publishes_conclude (h : Host ς ε) {o : Outcome ε Unit} (ho : o.verdict ≠ .unwound)
    (s : Sweep) (w : World ς) :
    Publishes s w.log (s.conclude h o w).2.1 (s.conclude h o w).2.2.log := by
  have := publishes_publish h s w
  unfold conclude
  split
  · exact absurd rfl ho
  · split <;> rename_i eq <;> rw [eq] at this <;> exact this

/-- A start on a stack that can be walked comes down to its first steps. -/
theorem start_of_walkable (h : Host ς ε) (context : Option Nat) (s : Sweep) {w : World ς}
    (walkable : w.thread.hasWalkableStack = true) :
    ∃ walked : World ς,
      walked.log = .walk w.thread.tid .incremental w.thread.frames ::
        .started (h.label w) (w.readEpoch h.kind).1 ::
          .epochRead h.kind (w.readEpoch h.kind).1 :: w.log ∧
      s.start h context w =
        match Walk.steps h ⟨context, s.published⟩ h.pacing.initialFrames
            (.ofFrames w.thread.frames) walked with
        | (.ok (), k, w') =>
          conclude h (.ok ()) { s with walk := some k, epoch := (w.readEpoch h.kind).1 }
            (w'.record (.installed (h.label w') (w.readEpoch h.kind).1))
        | (.failed err, _, w') =>
          (.failed err, { s with walk := none },
            w'.record (.startFailed (h.label w') (h.describe err)))
        | (.unwound x, _, w') => (.unwound x, { s with walk := none }, w') := by
  let begun := (w.readEpoch h.kind).2.record (.started (h.label w) (w.readEpoch h.kind).1)
  refine ⟨(begun.walkStack .incremental).2, rfl, ?_⟩
  unfold start
  simp only [World.thread_record, World.thread_readEpoch, walkable, if_true]
  rfl

theorem starts_start (h : Host ς ε) (hv : h.pacing.Valid) (context : Option Nat) (s : Sweep)
    (w : World ς) :
    ∃ begun, Starts s w.log begun (s.start h context w).2.1 (s.start h context w).2.2.log ∧
      ((s.start h context w).1 = .ok () → begun = true) := by
  by_cases walkable : w.thread.hasWalkableStack = true
  · obtain ⟨walked, log, start⟩ := s.start_of_walkable h context walkable
    rw [start]
    have spec := Walk.steps_spec h ⟨context, s.published⟩ h.pacing.initialFrames
      (.ofFrames w.thread.frames) walked
    rw [log] at spec
    have := hv.covers_buffer
    split <;> rename_i k w' eq <;> rw [eq] at spec
    · have filled (asc : Ascending w.thread.frames) (left : k.ahead ≠ []) :
          0 < k.trail.trailing.addr ∧ 0 < k.trail.leading.addr := by
        obtain ⟨trailing, leading⟩ := spec.2 rfl _ _ asc (Walk.tracks_ofFrames _) left
        unfold Pacing.safetyBuffer at this
        exact ⟨trailing (by omega), leading (.inl (by omega))⟩
      refine ⟨true, ?_, fun _ => rfl⟩
      exact .installed h.kind _ (h.label w) (h.label w') _ .incremental _ (spec.1.imp False.elim)
        filled (publishes_conclude h (by simp) _ (w'.record _))
    · refine ⟨false, ?_, nofun⟩
      exact .dropped h.kind _ (h.label w) _ .incremental _ spec.1 (.aside .refl rfl)
    · refine ⟨false, ?_, nofun⟩
      exact .dropped h.kind _ (h.label w) _ .incremental _ spec.1 .refl
  · rw [Bool.not_eq_true] at walkable
    unfold start
    simp only [World.thread_record, World.thread_readEpoch, walkable, Bool.false_eq_true, if_false]
    refine ⟨true, ?_, fun _ => rfl⟩
    exact .idle h.kind (w.readEpoch h.kind).1 (h.label w)
      (publishes_conclude h (by simp) _ ((w.readEpoch h.kind).2.record _))

theorem moves_drainBatch (h : Host ς ε) (context : Option Nat) (s : Sweep) (w : World ς) :
    Moves s w.log (Stage.drainBatch h context s w).2.1 (Stage.drainBatch h context s w).2.2.log := by
  unfold Stage.drainBatch
  split
  · rename_i hk
    exact .settle hk (publishes_conclude h (by simp) s w)
  · rename_i k hk
    have spec := (k.batch_spec h ⟨context, s.published⟩ h.pacing.framesPerYield w).1
    split <;> rename_i k' w' eq <;> rw [eq] at spec
    · have published := publishes_publish h { s with walk := some k' } w'
      have passed := spec.imp False.elim
      split <;> rename_i eq <;> rw [eq] at published
      · exact .passed hk passed published (.aside .refl rfl)
      · exact .passed hk passed published .refl
    · exact .passed hk (spec.imp False.elim) (publishes_conclude h (by simp) _ w') .refl
    · exact .passed hk (spec.imp False.elim) (publishes_conclude h (by simp) _ w') .refl
    · exact .unwound hk (spec.imp fun _ => rfl)

/-- Looking whether to start, and starting if so. -/
theorem turns_ensureStarted (h : Host ς ε) (hv : h.pacing.Valid) (context : Option Nat) (s : Sweep)
    (w : World ς) {s' : Sweep} {log log' : List Event}
    (aside : Visited (s.ensureStarted h context w).2.2.log [] log)
    (moves : Moves (s.ensureStarted h context w).2.1 log s' log') : Turns s w.log s' log' := by
  unfold ensureStarted at aside moves
  by_cases stale : s.isStale (w.readEpoch h.kind).1 = true
  · simp only [stale, if_true] at aside moves
    obtain ⟨begun, starts, -⟩ := starts_start h hv context s (w.readEpoch h.kind).2
    exact .renewed h.kind _ stale starts aside moves
  · rw [Bool.not_eq_true] at stale
    simp only [stale, Bool.false_eq_true, if_false] at aside moves
    exact .current h.kind _ stale aside moves

/-- What a turn consists of, as far as the code is concerned. -/
inductive Parts (h : Host ς ε) (s : Sweep) (w : World ς) : Sweep → List Event → Prop
  | looked (i : KindId) (e : Epoch) : Parts h s w s (.epochRead i e :: w.log)
  | resumed {s' log'} : Moves s w.log s' log' → Parts h s w s' log'
  | ensured {log s' log'} (context : Option Nat) :
      Visited (s.ensureStarted h context w).2.2.log [] log →
      Moves (s.ensureStarted h context w).2.1 log s' log' → Parts h s w s' log'

theorem parts_increment (h : Host ς ε) (s : Sweep) (w : World ς) :
    Parts h s w (s.increment h w).2.1 (s.increment h w).2.2.log := by
  have ensured (s' : Sweep) (log' : List Event)
      (moves : Moves (s.ensureStarted h none w).2.1 (s.ensureStarted h none w).2.2.log s' log') :
      Parts h s w s' log' := .ensured none .refl moves
  unfold ensureStarted at ensured
  unfold increment
  by_cases stale : s.isStale (w.readEpoch h.kind).1 = true
  · simp only [stale, if_true] at ensured ⊢
    exact ensured _ _ .rest
  · rw [Bool.not_eq_true] at stale
    simp only [stale, Bool.false_eq_true, if_false] at ensured ⊢
    split
    · exact ensured _ _ .rest
    · rename_i k hk
      have spec := (k.step_spec h ⟨none, s.published⟩ (w.readEpoch h.kind).2).1
      generalize k.step h ⟨none, s.published⟩ (w.readEpoch h.kind).2 = r at spec ⊢
      obtain ⟨o, k', w'⟩ := r
      refine ensured _ _ ?_
      cases o with
      | unwound x => exact .unwound hk (spec.imp fun _ => rfl)
      | ok _ =>
        exact .passed hk (spec.imp False.elim) (publishes_conclude h (by simp) _ w') .refl
      | failed _ =>
        exact .passed hk (spec.imp False.elim) (publishes_conclude h (by simp) _ w') .refl

theorem parts_drainFirst (h : Host ς ε) (context : Option Nat) (s : Sweep) (w : World ς) :
    Parts h s w (Stage.drainFirst h context s w).2.1
      (Stage.drainFirst h context s w).2.2.log := by
  have ensured (s' : Sweep) (log log' : List Event)
      (aside : Visited (s.ensureStarted h context w).2.2.log [] log)
      (moves : Moves (s.ensureStarted h context w).2.1 log s' log') : Parts h s w s' log' :=
    .ensured context aside moves
  unfold Stage.drainFirst
  generalize s.ensureStarted h context w = r at ensured ⊢
  obtain ⟨o, s₁, w₁⟩ := r
  cases o with
  | unwound x => exact ensured _ _ _ .refl .rest
  | failed e => exact ensured _ _ _ .refl .rest
  | ok _ =>
    simp only
    split
    · rename_i hk
      exact ensured _ _ _ .refl (.settle hk (publishes_conclude h (by simp) s₁ w₁))
    · exact ensured _ _ _ (.aside .refl rfl)
        (moves_drainBatch h context s₁ (w₁.record (.draining (h.label w₁))))

theorem parts_turn (h : Host ς ε) (stage : Stage) (s : Sweep) (w : World ς) :
    Parts h s w (stage.turn h s w).2.1 (stage.turn h s w).2.2.log := by
  cases stage with
  | increment => exact parts_increment h s w
  | start => exact .ensured none .refl .rest
  | drain context => exact parts_drainFirst h context s w
  | resume context => exact .resumed (moves_drainBatch h context s w)
  | secure f => exact .looked h.kind _
  | approach f =>
    have parts := parts_increment h s w
    simp only [Stage.turn]
    generalize s.increment h w = r at parts ⊢
    obtain ⟨o, s', w'⟩ := r
    cases o <;> exact parts
  | judge f => exact .looked h.kind _
  | locate => exact .looked h.kind _

theorem Parts.turns {h : Host ς ε} {s s' : Sweep} {w : World ς} {log' : List Event}
    (parts : Parts h s w s' log') (hv : h.pacing.Valid) : Turns s w.log s' log' := by
  cases parts with
  | looked i e => exact .looked i e
  | resumed moves => exact .resumed moves
  | ensured context aside moves => exact turns_ensureStarted h hv context s w aside moves

/-- Whatever the stage, its turn is one of the four. -/
theorem turns_turn (h : Host ς ε) (hv : h.pacing.Valid) (stage : Stage) (s : Sweep) (w : World ς) :
    Turns s w.log (stage.turn h s w).2.1 (stage.turn h s w).2.2.log :=
  (parts_turn h stage s w).turns hv

/-! ## Drains that answer -/

/-- The sweep says that the campaign of its walk is over, and no frame of the walk is left. -/
structure IsSettled (s : Sweep) : Prop where
  published : s.published = .settled s.epoch
  exhausted : ∀ k, s.walk = some k → k.ahead = []

theorem isSettled_conclude (h : Host ς ε) {s : Sweep} (hk : ∀ k, s.walk = some k → k.ahead = [])
    (o : Outcome ε Unit) (ho : o.verdict ≠ .unwound) (w : World ς) :
    (s.conclude h o w).2.1.IsSettled := by
  have publish : s.publish h w = (none, s.storeDone h w) := by
    unfold Sweep.publish
    split
    · rename_i k hk'
      simp [Walk.hasNext, hk k hk']
    · rfl
  unfold conclude
  split
  · exact absurd rfl ho
  · rw [publish]
    exact ⟨rfl, hk⟩

theorem conclude_failed_ne_ok (h : Host ς ε) (e : ε) (s : Sweep) (w : World ς) :
    (s.conclude h (.failed e) w).1 ≠ .ok () := by
  unfold conclude
  split
  · simp
  · split <;> simp

theorem ok_of_ended {r : Outcome ε Unit × Sweep × World ς} {a : Answer}
    (done : (Stage.ended r).1 = .finished (.ok a)) : r.1 = .ok () := by
  obtain ⟨o, s, w⟩ := r
  cases o with
  | ok _ => rfl
  | failed _ => cases done
  | unwound _ => cases done

theorem isSettled_of_drainBatch (h : Host ς ε) {context : Option Nat} {s : Sweep} {w : World ς}
    {a : Answer} (done : (Stage.drainBatch h context s w).1 = .finished (.ok a)) :
    (Stage.drainBatch h context s w).2.1.IsSettled := by
  revert done
  unfold Stage.drainBatch
  split
  · rename_i hk
    exact fun _ => isSettled_conclude h (exhausted_of_no_walk hk) (.ok ()) (by simp) w
  · rename_i k _
    have spec := (k.batch_spec h ⟨context, s.published⟩ h.pacing.framesPerYield w).2
    split <;> rename_i k' w' eq <;> rw [eq] at spec
    · split <;> nofun
    · refine fun _ => isSettled_conclude h ?_ (.ok ()) (by simp) w'
      intro k'' hk''
      cases hk''
      exact spec rfl
    · rename_i e
      intro done
      exact absurd (ok_of_ended done) (conclude_failed_ne_ok h e { s with walk := some k' } w')
    · nofun

/-- A drain that ends well, at once or after others have had their turns, leaves the sweep settled.
-/
theorem isSettled_of_drained (h : Host ς ε) {context : Option Nat} {s : Sweep} {w : World ς}
    {stage : Stage} {a : Answer} (drain : stage = .drain context ∨ stage = .resume context)
    (done : (stage.turn h s w).1 = .finished (.ok a)) : (stage.turn h s w).2.1.IsSettled := by
  rcases drain with rfl | rfl
  · revert done
    simp only [Stage.turn, Stage.drainFirst]
    split
    · split
      · rename_i hk
        exact fun _ => isSettled_conclude h (exhausted_of_no_walk hk) (.ok ()) (by simp) _
      · exact isSettled_of_drainBatch h
    · rename_i other
      intro done
      exact (other _ _ (Prod.ext (ok_of_ended done) rfl)).elim
  · exact isSettled_of_drainBatch h done

end StackSweep.Sweep
