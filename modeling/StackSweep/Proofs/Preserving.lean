import StackSweep.Proofs.Starting

/-!
# Invariants that look into the parts of a turn

`Turns` says what the parts of a turn do to the log. An invariant may have to know more of a part
than that, such as the frame at which a step has stopped. So here the parts are given as the code
has them, and what each of them preserves is preserved by every turn and holds wherever a run leads.
-/

namespace StackSweep

variable {ς ε : Type}

namespace Sweep

/-- What each part of a turn preserves of a sweep whose walk is accounted for. -/
structure Preserved (h : Host ς ε) (birth : Epoch) (P : Sweep → List Event → Prop) : Prop where
  read {s log} (e : Epoch) : P s log → P s (.epochRead h.kind e :: log)
  asides {s log log'} : P s log → Visited log [] log' → P s log'
  publishes {s s' log log'} : s.Accounted (attempts birth log) → P s log →
    s.Publishes log s' log' → P s' log'
  step {s k} (sh : Walk.Shared) (w : World ς) : s.Accounted (attempts birth w.log) →
    s.walk = some k → P s w.log →
    P { s with walk := some (k.step h sh w).2.1 } (k.step h sh w).2.2.log
  batch {s k} (sh : Walk.Shared) (w : World ς) : s.Accounted (attempts birth w.log) →
    s.walk = some k → P s w.log →
    P { s with walk := some (k.batch h sh h.pacing.framesPerYield w).2.1 }
      (k.batch h sh h.pacing.framesPerYield w).2.2.log
  /-- A start finds no stack to walk. -/
  idle {s log} (e : Epoch) (l : Label) : P s log →
    P { s with walk := none, epoch := e } (.started l e :: .epochRead h.kind e :: log)
  begun {s k w'} (context : Option Nat) (w : World ς) : P s w.log →
    s.firstSteps h context w = (.ok (), k, w') →
    P { s with walk := some k, epoch := (w.readEpoch h.kind).1 }
      (.installed (h.label w') (w.readEpoch h.kind).1 :: w'.log)
  /-- A start does not get past its first steps. -/
  refused {s} (context : Option Nat) (w : World ς) : P s w.log →
    (s.firstSteps h context w).1 ≠ .ok () →
    P { s with walk := none } (s.firstSteps h context w).2.2.log

/-- The sweep is accounted for and has the property. -/
def Bears (birth : Epoch) (P : Sweep → List Event → Prop) (s : Sweep) (log : List Event) : Prop :=
  s.Accounted (attempts birth log) ∧ P s log

namespace Preserved

variable {h : Host ς ε} {birth : Epoch} {P : Sweep → List Event → Prop} {s : Sweep} {w : World ς}
  {context : Option Nat}

theorem aside {log log' : List Event} (pres : Preserved h birth P) (now : s.Bears birth P log)
    (asides : Visited log [] log') : s.Bears birth P log' := by
  refine ⟨?_, pres.asides now.2 asides⟩
  rw [asides.attempts_same]
  exact now.1

theorem publish (pres : Preserved h birth P) (now : s.Bears birth P w.log) :
    (s.publish h w).2.1.Bears birth P (s.publish h w).2.2.log :=
  ⟨accounted_publishes now.1 (publishes_publish h s w),
    pres.publishes now.1 now.2 (publishes_publish h s w)⟩

theorem conclude (pres : Preserved h birth P) (o : Outcome ε Unit) (now : s.Bears birth P w.log) :
    (s.conclude h o w).2.1.Bears birth P (s.conclude h o w).2.2.log := by
  by_cases ho : o.verdict = .unwound
  · cases o with
    | unwound x => exact now
    | ok _ => cases ho
    | failed _ => cases ho
  · have published := publishes_conclude h ho s w
    exact ⟨accounted_publishes now.1 published, pres.publishes now.1 now.2 published⟩

theorem start (pres : Preserved h birth P) (context : Option Nat) (now : s.Bears birth P w.log) :
    (s.start h context w).2.1.Bears birth P (s.start h context w).2.2.log := by
  obtain ⟨acc, has⟩ := now
  cases s.departs h context w with
  | idle _ start =>
    rw [start]
    refine pres.conclude (.ok ()) ⟨?_, pres.idle (w.readEpoch h.kind).1 (h.label w) has⟩
    exact accounted_idle acc h.kind _ (h.label w)
  | begun k w' _ steps start =>
    have passes := firstSteps_passes h context s w
    rw [steps] at passes
    rw [start]
    refine pres.conclude (.ok ()) ⟨?_, pres.begun context w has steps⟩
    exact accounted_installed acc (passes.imp False.elim)
  | refused _ refused _ dropped asides =>
    rw [dropped]
    refine pres.aside ⟨?_, pres.refused context w has refused⟩ asides
    exact accounted_starts acc (.dropped h.kind _ (h.label w) _ .incremental _
      (firstSteps_passes h context s w) .refl)

theorem ensureStarted (pres : Preserved h birth P) (context : Option Nat)
    (now : s.Bears birth P w.log) :
    (s.ensureStarted h context w).2.1.Bears birth P (s.ensureStarted h context w).2.2.log := by
  have read : s.Bears birth P (w.readEpoch h.kind).2.log := ⟨now.1, pres.read _ now.2⟩
  unfold Sweep.ensureStarted
  by_cases stale : s.isStale (w.readEpoch h.kind).1 = true
  · simp only [stale, if_true]
    exact pres.start context read
  · simp only [stale]
    exact read

theorem increment (pres : Preserved h birth P) (now : s.Bears birth P w.log) :
    (s.increment h w).2.1.Bears birth P (s.increment h w).2.2.log := by
  have read : s.Bears birth P (w.readEpoch h.kind).2.log := ⟨now.1, pres.read _ now.2⟩
  unfold Sweep.increment
  by_cases stale : s.isStale (w.readEpoch h.kind).1 = true
  · simp only [stale, if_true]
    exact pres.start none read
  · simp only [stale, Bool.false_eq_true, if_false]
    split
    · exact read
    · rename_i k hk
      refine pres.conclude _ ⟨?_, pres.step _ _ read.1 hk read.2⟩
      exact accounted_passes read.1 hk (k.step_spec h _ _).1

theorem drainBatch (pres : Preserved h birth P) (context : Option Nat)
    (now : s.Bears birth P w.log) :
    (Stage.drainBatch h context s w).2.1.Bears birth P
      (Stage.drainBatch h context s w).2.2.log := by
  unfold Stage.drainBatch
  split
  · exact pres.conclude (.ok ()) now
  · rename_i k hk
    have passes := (k.batch_spec h ⟨context, s.published⟩ h.pacing.framesPerYield w).1
    have moved : Bears birth P
        { s with walk := some (k.batch h ⟨context, s.published⟩ h.pacing.framesPerYield w).2.1 }
        (k.batch h ⟨context, s.published⟩ h.pacing.framesPerYield w).2.2.log :=
      ⟨accounted_passes now.1 hk passes, pres.batch _ w now.1 hk now.2⟩
    split <;> rename_i k' w' eq <;> rw [eq] at moved
    · have published := pres.publish moved
      split <;> rename_i eq <;> rw [eq] at published
      · exact pres.aside published (.aside .refl rfl)
      · exact published
    · exact pres.conclude (.ok ()) moved
    · exact pres.conclude (.failed _) moved
    · exact moved

theorem drainFirst (pres : Preserved h birth P) (context : Option Nat)
    (now : s.Bears birth P w.log) :
    (Stage.drainFirst h context s w).2.1.Bears birth P
      (Stage.drainFirst h context s w).2.2.log := by
  have started := pres.ensureStarted context now
  unfold Stage.drainFirst
  generalize s.ensureStarted h context w = r at started ⊢
  obtain ⟨o, s₁, w₁⟩ := r
  cases o with
  | failed e => exact started
  | unwound x => exact started
  | ok _ =>
    simp only
    split
    · exact pres.conclude (.ok ()) started
    · exact pres.drainBatch context (pres.aside started (.aside .refl rfl))

/-- What the parts preserve is preserved by the turn. -/
theorem turn (pres : Preserved h birth P) (stage : Stage) (now : s.Bears birth P w.log) :
    (stage.turn h s w).2.1.Bears birth P (stage.turn h s w).2.2.log := by
  have look : s.Bears birth P (w.readEpoch h.kind).2.log := ⟨now.1, pres.read _ now.2⟩
  cases stage with
  | increment => exact pres.increment now
  | start => exact pres.ensureStarted none now
  | drain context => exact pres.drainFirst context now
  | resume context => exact pres.drainBatch context now
  | secure f => exact look
  | approach f =>
    have moved := pres.increment now
    simp only [Stage.turn]
    generalize s.increment h w = r at moved ⊢
    obtain ⟨o, s', w'⟩ := r
    cases o <;> exact moved
  | judge f => exact look
  | locate => exact look

end Preserved

end Sweep

namespace Site

/-- What the parts of a turn preserve holds at every reachable site. -/
theorem Reachable.bears {h : Host ς ε} {birth : Epoch} {P : Sweep → List Event → Prop}
    {site : Site ς} (r : Reachable h birth site) (pres : Sweep.Preserved h birth P)
    (made : P (.settled birth) [.epochRead h.kind birth]) : P site.sweep site.world.log := by
  suffices site.sweep.Bears birth P site.world.log from this.2
  induction r with
  | created empty hc =>
    simp only [log_created empty hc]
    exact ⟨Sweep.accounted_settled birth, made⟩
  | @step site site' r st ih =>
    cases st with
    | change w same =>
      rw [same]
      exact ih
    | call p c _ =>
      rw [sweep_call]
      rcases log_call h p c site with same | same
      · rw [same]
        exact ih
      · rw [same]
        exact ⟨ih.1, pres.read _ ih.2⟩
    | turn p b _ => exact pres.turn b.stage ih

end Site

end StackSweep
