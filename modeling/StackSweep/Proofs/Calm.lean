import StackSweep.Proofs.Starting

/-!
# What an operation leaves alone

Processing a frame may do anything to the world. The library itself only keeps the log, reads the
epoch, counts the walks and puts the bookkeeping of the thread aside. So whatever the processor
respects is respected by every operation. In particular the epochs and the stack stay as they are
while an operation is at work, if the processor leaves them as they are.
-/

namespace StackSweep

variable {ς ε : Type}

/-- The entry hands out no frame. -/
def Event.IsQuiet : Event → Prop
  | .visit .. => False
  | _ => True

theorem Event.isQuiet_of_isAside {e : Event} (aside : e.isAside = true) : e.IsQuiet := by
  cases e <;> simp_all [Event.isAside, Event.IsQuiet]

/-- What everything that an operation does to the world preserves. -/
structure Host.Respects (h : Host ς ε) (P : World ς → Prop) : Prop where
  record {w : World ς} {e : Event} : e.IsQuiet → P w → P (w.record e)
  read {w : World ς} : P w → P (w.readEpoch h.kind).2
  walk {w : World ς} (options : WalkOptions) : P w → P (w.walkStack options).2
  enter {w : World ς} : P w → P (Bracket.enter w).2
  leave {w : World ς} (b : Bracket) : P w → P (b.leave w)
  visit {w : World ς} (v : Visit) : P w → P (h.visit v w).2

namespace Host.Respects

variable {h : Host ς ε} {P : World ς → Prop} {w : World ς} (keeps : h.Respects P)
  (sh : Walk.Shared) (context : Option Nat) (s : Sweep)

include keeps

theorem stepFrames (fs : List Frame) : ∀ (last : Position) (cursor : Nat) {w : World ς}, P w →
    P (Walk.stepFrames h sh last cursor fs w).world := by
  induction fs with
  | nil => exact fun _ _ _ now => now
  | cons f rest ih =>
    intro last cursor w now
    have visited := keeps.visit ⟨f, cursor, sh.context, sh.published⟩ now
    unfold Walk.stepFrames
    split <;> rename_i w' eq <;> rw [eq] at visited
    · split
      · exact visited
      · exact ih f.position (cursor + 1) visited
    · exact visited
    · exact visited

theorem step (k : Walk) (now : P w) : P (k.step h sh w).2.2 :=
  keeps.leave _ (keeps.stepFrames sh k.ahead .none k.cursor (keeps.enter now))

theorem steps (n : Nat) : ∀ (k : Walk) {w : World ς}, P w → P (Walk.steps h sh n k w).2.2 := by
  induction n with
  | zero => exact fun _ _ now => now
  | succ n ih =>
    intro k w now
    have first := keeps.step sh k now
    unfold Walk.steps
    split <;> rename_i k' w' eq <;> rw [eq] at first
    · exact ih k' first
    · exact first
    · exact first

theorem batchFrames (interval : Nat) (fs : List Frame) :
    ∀ (seen cursor : Nat) (t : Trail) {w : World ς}, P w →
      P (Walk.batchFrames h sh interval seen cursor t fs w).2.2 := by
  induction fs with
  | nil => exact fun _ _ _ _ now => now
  | cons f rest ih =>
    intro seen cursor t w now
    have visited := keeps.visit ⟨f, cursor, sh.context, sh.published⟩ now
    unfold Walk.batchFrames
    split
    · exact now
    · split <;> rename_i w' eq <;> rw [eq] at visited
      · split
        · dsimp only
          split
          · exact visited
          · exact ih _ _ _ visited
        · exact ih _ _ _ visited
      · exact visited
      · exact visited

theorem batch (interval : Nat) (k : Walk) (now : P w) : P (k.batch h sh interval w).2.2 :=
  keeps.leave _ (keeps.batchFrames sh interval k.ahead 0 k.cursor k.trail (keeps.enter now))

theorem store (boundary : Position) (done : Bool) (now : P w) :
    P (s.store h boundary done w).2 :=
  keeps.record trivial (keeps.record trivial now)

theorem storeDone (now : P w) : P (s.storeDone h w).2 := by
  have stored := keeps.store s .none true now
  unfold Sweep.storeDone
  dsimp only
  split
  · exact stored
  · exact keeps.record trivial stored

theorem publish (now : P w) : P (s.publish h w).2.2 := by
  unfold Sweep.publish
  split
  · split
    · split
      · exact now
      · exact keeps.store s _ false now
    · exact keeps.storeDone s now
  · exact keeps.storeDone s now

theorem conclude (o : Outcome ε Unit) (now : P w) : P (s.conclude h o w).2.2 := by
  have published := keeps.publish s now
  unfold Sweep.conclude
  split
  · exact now
  · split <;> rename_i eq <;> rw [eq] at published <;> exact published

theorem start (now : P w) : P (s.start h context w).2.2 := by
  have announced : P (Sweep.announced h w) := keeps.record trivial (keeps.read now)
  have stepped : P (s.firstSteps h context w).2.2 :=
    keeps.steps _ _ _ (keeps.walk .incremental announced)
  cases walkable : w.thread.hasWalkableStack with
  | false =>
    rw [Sweep.start_of_not_walkable walkable]
    exact keeps.conclude _ (.ok ()) announced
  | true =>
    rw [Sweep.start_of_walkable_eq walkable]
    generalize s.firstSteps h context w = r at stepped ⊢
    obtain ⟨o, k, w'⟩ := r
    cases o with
    | ok _ => exact keeps.conclude _ (.ok ()) (keeps.record trivial stepped)
    | failed e => exact keeps.record trivial stepped
    | unwound x => exact stepped

theorem ensureStarted (now : P w) : P (s.ensureStarted h context w).2.2 := by
  have read := keeps.read now
  unfold Sweep.ensureStarted
  dsimp only
  split
  · exact keeps.start context s read
  · exact read

theorem increment (now : P w) : P (s.increment h w).2.2 := by
  have read := keeps.read now
  unfold Sweep.increment
  dsimp only
  split
  · exact keeps.start none s read
  · split
    · exact read
    · exact keeps.conclude _ _ (keeps.step _ _ read)

theorem drainBatch (now : P w) : P (Stage.drainBatch h context s w).2.2 := by
  unfold Stage.drainBatch
  split
  · exact keeps.conclude s (.ok ()) now
  · rename_i k _
    have moved := keeps.batch ⟨context, s.published⟩ h.pacing.framesPerYield k now
    split <;> rename_i k' w' eq <;> rw [eq] at moved
    · have published := keeps.publish { s with walk := some k' } moved
      split <;> rename_i eq <;> rw [eq] at published
      · exact keeps.record trivial published
      · exact published
    · exact keeps.conclude _ (.ok ()) moved
    · exact keeps.conclude _ (.failed _) moved
    · exact moved

theorem drainFirst (now : P w) : P (Stage.drainFirst h context s w).2.2 := by
  have started := keeps.ensureStarted context s now
  unfold Stage.drainFirst
  generalize s.ensureStarted h context w = r at started ⊢
  obtain ⟨o, s₁, w₁⟩ := r
  cases o with
  | failed e => exact started
  | unwound x => exact started
  | ok _ =>
    simp only
    split
    · exact keeps.conclude s₁ (.ok ()) started
    · exact keeps.drainBatch context s₁ (keeps.record trivial started)

theorem turn (stage : Stage) (now : P w) : P (stage.turn h s w).2.2 := by
  cases stage with
  | increment => exact keeps.increment s now
  | start => exact keeps.ensureStarted none s now
  | drain context => exact keeps.drainFirst context s now
  | resume context => exact keeps.drainBatch context s now
  | secure f => exact keeps.read now
  | approach f =>
    have moved := keeps.increment s now
    simp only [Stage.turn]
    generalize s.increment h w = r at moved ⊢
    obtain ⟨o, s', w'⟩ := r
    cases o <;> exact moved
  | judge f => exact keeps.read now
  | locate => exact keeps.read now

theorem openWith (c : Call) (published : Published) (now : P w) :
    P (c.openWith h published w).2 := by
  cases c with
  | request => exact keeps.read now
  | _ => exact now

end Host.Respects

/-! ## Epochs and stacks that stay -/

/-- However often the authority is asked for epochs of these kinds, it gives these answers. -/
def Authority.Abides (kinds : KindId → Prop) (epoch : KindId → Epoch) (a : Authority) : Prop :=
  ∀ ks : List KindId, (∀ k ∈ ks, kinds k) → ∀ k, kinds k →
    ((ks.foldl (fun a k => (a.read k).2) a).read k).1 = epoch k

namespace Authority.Abides

variable {kinds : KindId → Prop} {epoch : KindId → Epoch} {a : Authority} {k : KindId}

theorem answer (abides : a.Abides kinds epoch) (hk : kinds k) : (a.read k).1 = epoch k :=
  abides [] nofun k hk

theorem read (abides : a.Abides kinds epoch) (hk : kinds k) : (a.read k).2.Abides kinds epoch :=
  fun ks all => abides (k :: ks) (List.forall_mem_cons.2 ⟨hk, all⟩)

/-- An authority that no reading changes gives the same answers all the time. -/
theorem of_steady (steady : ∀ k, kinds k → (a.read k).2 = a)
    (answers : ∀ k, kinds k → (a.read k).1 = epoch k) : a.Abides kinds epoch := by
  intro ks
  induction ks with
  | nil => exact fun _ => answers
  | cons k ks ih =>
    intro all
    obtain ⟨hk, rest⟩ := List.forall_mem_cons.1 all
    rw [List.foldl_cons, steady k hk]
    exact ih rest

end Authority.Abides

/-- What stays the same around an operation: the epochs of some kinds, and the stack. -/
structure Calm where
  kinds : KindId → Prop
  epoch : KindId → Epoch
  stack : Option (List Frame)
  walkable : Bool

namespace Calm

structure Holds (c : Calm) (w : World ς) : Prop where
  epochs : w.epochs.Abides c.kinds c.epoch
  stack : w.thread.stack = c.stack
  walkable : w.thread.walkable = c.walkable

variable {c : Calm} {h : Host ς ε} {w w' : World ς} {k : KindId}

theorem Holds.frames_eq (now : c.Holds w) (later : c.Holds w') :
    w'.thread.frames = w.thread.frames := by
  unfold Thread.frames
  rw [now.stack, later.stack]

theorem Holds.sender?_eq (now : c.Holds w) (later : c.Holds w') (f : Frame) :
    w'.thread.sender? f = w.thread.sender? f := by
  unfold Thread.sender?
  rw [now.frames_eq later]

theorem Holds.topFrame?_eq (now : c.Holds w) (later : c.Holds w') :
    w'.thread.topFrame? = w.thread.topFrame? := by
  unfold Thread.topFrame? Thread.lastFrame?
  rw [now.frames_eq later]
  split
  · rfl
  · rw [now.sender?_eq later]

theorem Holds.decidingPosition_eq (now : c.Holds w) (later : c.Holds w') (f : Frame) :
    w'.thread.decidingPosition f = w.thread.decidingPosition f := by
  unfold Thread.decidingPosition
  rw [now.sender?_eq later]

theorem Holds.current (now : c.Holds w) (hk : c.kinds k) : (w.readEpoch k).1 = c.epoch k :=
  now.epochs.answer hk

/-- Neither taking a lock nor giving it back disturbs anything. -/
theorem Holds.lock (now : c.Holds w) (i : Nat) : c.Holds (w.lock i) :=
  ⟨now.epochs, now.stack, now.walkable⟩

theorem Holds.unlock (now : c.Holds w) (i : Nat) (s : Sweep) : c.Holds (w.unlock i s) :=
  ⟨now.epochs, now.stack, now.walkable⟩

/-- An operation of this host keeps calm if its processor does. -/
theorem respects (hk : c.kinds h.kind) (calm : ∀ v (w : World ς), c.Holds w →
    c.Holds (h.process v w).2) : h.Respects c.Holds where
  record _ now := ⟨now.epochs, now.stack, now.walkable⟩
  read now := ⟨now.epochs.read hk, now.stack, now.walkable⟩
  walk _ now := ⟨now.epochs, now.stack, now.walkable⟩
  enter now := ⟨now.epochs, now.stack, now.walkable⟩
  leave _ now := ⟨now.epochs, now.stack, now.walkable⟩
  visit {w} v now := by
    have after := calm v { w with log := [] } ⟨now.epochs, now.stack, now.walkable⟩
    exact ⟨after.epochs, after.stack, after.walkable⟩

end Calm

end StackSweep
