import StackSweep.Proofs.Starting

/-!
# Two runs side by side

The same operation on two sweeps in two worlds. Two hosts tally if they cannot tell such worlds
apart and treat both alike. Then a turn takes the same course in both: it hands the same frames to
the processor and ends in the same way. What the two sweeps have kept from earlier times makes no
difference as long as both are stale, since a start sets all of it anew.
-/

namespace StackSweep

variable {ς ς' ε α : Type}

/-- What two hosts do to corresponding worlds ends alike and leads to corresponding worlds. The
published state that a visit sees may differ in as far as the processors cannot tell. -/
structure Host.Tallies (h : Host ς ε) (h' : Host ς' ε) (P : Published → Published → Prop)
    (R : World ς → World ς' → Prop) : Prop where
  kind : h'.kind = h.kind
  pacing : h'.pacing = h.pacing
  onIteration : h'.onIteration = h.onIteration
  describe : h'.describe = h.describe
  same (p : Published) : P p p
  tid {w w'} : R w w' → w'.thread.tid = w.thread.tid
  record {w w'} (e : Event) : R w w' → R (w.record e) (w'.record e)
  yield {w w'} (n : Nat) : R w w' →
    R (w.record (.yielding (h.label w) (h.waiters w) n))
      (w'.record (.yielding (h'.label w') (h'.waiters w') n))
  enter {w w'} : R w w' → R (Bracket.enter w).2 (Bracket.enter w').2
  leave {v v' w w'} : R v v' → R w w' →
    R ((Bracket.enter v).1.leave w) ((Bracket.enter v').1.leave w')
  barrier {w w'} (f : Frame) : R w w' → h'.hasBarrier f w' = h.hasBarrier f w
  visit {w w' p p'} (f : Frame) (registers : Nat) (context : Option Nat) : R w w' → P p p' →
    (h'.visit ⟨f, registers, context, p'⟩ w').1 = (h.visit ⟨f, registers, context, p⟩ w).1 ∧
      R (h.visit ⟨f, registers, context, p⟩ w).2 (h'.visit ⟨f, registers, context, p'⟩ w').2

/-- Worlds that correspond when an operation begins: the epoch and the stack are the same. -/
structure Host.Concurs (h : Host ς ε) (h' : Host ς' ε) (Q R : World ς → World ς' → Prop) :
    Prop where
  weaken {w w'} : Q w w' → R w w'
  epoch {w w'} : Q w w' → (w'.readEpoch h.kind).1 = (w.readEpoch h.kind).1
  read {w w'} : Q w w' → Q (w.readEpoch h.kind).2 (w'.readEpoch h.kind).2
  started {w w'} (l : Label) (e : Epoch) : Q w w' → Q (w.record (.started l e))
    (w'.record (.started l e))
  stack {w w'} : Q w w' →
    w'.thread.stack = w.thread.stack ∧ w'.thread.walkable = w.thread.walkable
  walk {w w'} : Q w w' → R (w.walkStack .incremental).2 (w'.walkStack .incremental).2

/-- Both have ended alike, and if the condition is met they have the same result. -/
structure Agree {α β : Type} (R : World ς → World ς' → Prop) (met : Prop) (r : α × β × World ς)
    (r' : α × β × World ς') : Prop where
  outcome : r'.1 = r.1
  world : R r.2.2 r'.2.2
  result : met → r'.2.1 = r.2.1

/-- Less may be known of when the results are the same. -/
theorem Agree.imp {α β : Type} {R : World ς → World ς' → Prop} {met met' : Prop}
    {r : α × β × World ς} {r' : α × β × World ς'} (agree : Agree R met r r') (enough : met' → met) :
    Agree R met' r r' :=
  ⟨agree.outcome, agree.world, fun m => agree.result (enough m)⟩

/-- With the same result, the two differ in nothing but the worlds. -/
theorem Agree.split {α β : Type} {R : World ς → World ς' → Prop} {met : Prop}
    {r : α × β × World ς} {r' : α × β × World ς'} (agree : Agree R met r r') (m : met) :
    ∃ o x w w', r = (o, x, w) ∧ r' = (o, x, w') ∧ R w w' := by
  obtain ⟨o, x, w⟩ := r
  obtain ⟨o', x', w'⟩ := r'
  obtain ⟨outcome, world, result⟩ := agree
  cases outcome
  cases result m
  exact ⟨o, x, w, w', rfl, rfl, world⟩

theorem Agree.ended {R : World ς → World ς' → Prop} {met : Prop}
    {r : Outcome ε Unit × Sweep × World ς} {r' : Outcome ε Unit × Sweep × World ς'}
    (agree : Agree R met r r') : Agree R met (Stage.ended r) (Stage.ended r') := by
  obtain ⟨outcome, world, result⟩ := agree
  refine ⟨?_, world, result⟩
  unfold Stage.ended
  rw [outcome]

/-- To a reader of this epoch the two sweeps are the same, or both are stale. -/
def Sweep.Alike (e : Epoch) (s s' : Sweep) : Prop :=
  s' = s ∨ s.published.word.isOf e = false ∧ s'.published.word.isOf e = false

section alike

variable {s s' : Sweep} {e : Epoch}

theorem Sweep.Alike.isOf (alike : s.Alike e s') :
    s'.published.word.isOf e = s.published.word.isOf e := by
  rcases alike with rfl | ⟨hs, hs'⟩
  · rfl
  · rw [hs, hs']

theorem Sweep.Alike.isStale (alike : s.Alike e s') : s'.isStale e = s.isStale e := by
  unfold Sweep.isStale
  rw [alike.isOf]

theorem Sweep.Alike.phase (alike : s.Alike e s') : s'.phase e = s.phase e := by
  unfold Sweep.phase ProgressWord.phase
  rcases alike with rfl | ⟨hs, hs'⟩
  · rfl
  · rw [hs, hs']
    rfl

/-- Whoever finds the campaign started finds the same sweep. -/
theorem Sweep.Alike.eq_of_current (alike : s.Alike e s') (current : ¬ s.isStale e = true) :
    s' = s := by
  rcases alike with same | ⟨hs, -⟩
  · exact same
  · simp [Sweep.isStale, hs] at current

/-- No campaign that is still to be started has been published as over. -/
theorem Sweep.Alike.word (alike : s.Alike e s') :
    s'.published.word = .pack e true ↔ s.published.word = .pack e true := by
  have other {w : ProgressWord} (of : w.isOf e = false) : w ≠ .pack e true := by
    rintro rfl
    rw [Bool.eq_false_iff] at of
    exact of (ProgressWord.isOf_pack.2 rfl)
  rcases alike with rfl | ⟨hs, hs'⟩
  · rfl
  · exact iff_of_false (other hs') (other hs)

end alike

namespace Host.Tallies

variable {h : Host ς ε} {h' : Host ς' ε} {P : Published → Published → Prop}
  {Q R : World ς → World ς' → Prop} {w : World ς} {w' : World ς'}

theorem label (tal : h.Tallies h' P R) (hw : R w w') : h'.label w' = h.label w := by
  unfold Host.label
  rw [tal.tid hw, tal.kind]

/-! ## Walks -/

section walks

variable (context : Option Nat) {p p' : Published}

theorem stepFrames (tal : h.Tallies h' P R) (hp : P p p') (fs : List Frame) :
    ∀ (last : Position) (cursor : Nat) {w : World ς} {w' : World ς'}, R w w' →
      let r := Walk.stepFrames h ⟨context, p⟩ last cursor fs w
      let r' := Walk.stepFrames h' ⟨context, p'⟩ last cursor fs w'
      r'.outcome = r.outcome ∧ r'.last = r.last ∧ r'.cursor = r.cursor ∧ r'.ahead = r.ahead ∧
        R r.world r'.world := by
  induction fs with
  | nil => exact fun _ _ _ _ hw => ⟨rfl, rfl, rfl, rfl, hw⟩
  | cons f rest ih =>
    intro last cursor w w' hw
    obtain ⟨outcome, world⟩ := tal.visit f cursor context hw hp
    simp only [Walk.stepFrames]
    generalize h.visit ⟨f, cursor, context, p⟩ w = r at outcome world ⊢
    generalize h'.visit ⟨f, cursor, context, p'⟩ w' = r' at outcome world ⊢
    obtain ⟨o, w₁⟩ := r
    obtain ⟨o', w₁'⟩ := r'
    cases outcome
    cases o with
    | ok _ =>
      simp only
      rw [tal.barrier f hw]
      split
      · exact ⟨rfl, rfl, rfl, rfl, world⟩
      · exact ih f.position (cursor + 1) world
    | failed e => exact ⟨rfl, rfl, rfl, rfl, world⟩
    | unwound x => exact ⟨rfl, rfl, rfl, rfl, world⟩

theorem step (tal : h.Tallies h' P R) (hp : P p p') (k : Walk) (hw : R w w') :
    Agree R True (k.step h ⟨context, p⟩ w) (k.step h' ⟨context, p'⟩ w') := by
  obtain ⟨outcome, last, cursor, ahead, world⟩ :=
    tal.stepFrames context hp k.ahead .none k.cursor (tal.enter hw)
  refine ⟨outcome, tal.leave hw world, fun _ => ?_⟩
  simp only [Walk.step]
  rw [last, cursor, ahead]

theorem steps (tal : h.Tallies h' P R) (hp : P p p') (n : Nat) :
    ∀ (k : Walk) {w : World ς} {w' : World ς'}, R w w' →
      Agree R True (Walk.steps h ⟨context, p⟩ n k w) (Walk.steps h' ⟨context, p'⟩ n k w') := by
  induction n with
  | zero => exact fun _ _ _ hw => ⟨rfl, hw, fun _ => rfl⟩
  | succ n ih =>
    intro k w w' hw
    obtain ⟨o, k₁, w₁, w₁', left, right, world⟩ := (tal.step context hp k hw).split trivial
    simp only [Walk.steps, left, right]
    cases o with
    | ok _ => exact ih k₁ world
    | failed e => exact ⟨rfl, world, fun _ => rfl⟩
    | unwound x => exact ⟨rfl, world, fun _ => rfl⟩

theorem batchFrames (tal : h.Tallies h' P R) (hp : P p p') (interval : Nat) (fs : List Frame) :
    ∀ (seen cursor : Nat) (t : Trail) {w : World ς} {w' : World ς'}, R w w' →
      Agree R True (Walk.batchFrames h ⟨context, p⟩ interval seen cursor t fs w)
        (Walk.batchFrames h' ⟨context, p'⟩ interval seen cursor t fs w') := by
  induction fs with
  | nil => exact fun _ _ _ _ _ hw => ⟨rfl, hw, fun _ => rfl⟩
  | cons f rest ih =>
    intro seen cursor t w w' hw
    obtain ⟨outcome, world⟩ := tal.visit f cursor context hw hp
    simp only [Walk.batchFrames]
    by_cases inner : f.position.isInner t.leading = true
    · simp only [inner, if_true]
      exact ⟨rfl, hw, fun _ => rfl⟩
    · simp only [inner]
      generalize h.visit ⟨f, cursor, context, p⟩ w = r at outcome world ⊢
      generalize h'.visit ⟨f, cursor, context, p'⟩ w' = r' at outcome world ⊢
      obtain ⟨o, w₁⟩ := r
      obtain ⟨o', w₁'⟩ := r'
      cases outcome
      cases o with
      | ok _ =>
        simp only [Bool.false_eq_true, if_false]
        rw [tal.barrier f hw]
        split
        · split
          · exact ⟨rfl, world, fun _ => rfl⟩
          · exact ih (seen + 1) (cursor + 1) _ world
        · exact ih seen (cursor + 1) t world
      | failed e => exact ⟨rfl, world, fun _ => rfl⟩
      | unwound x => exact ⟨rfl, world, fun _ => rfl⟩

theorem batch (tal : h.Tallies h' P R) (hp : P p p') (interval : Nat) (k : Walk) (hw : R w w') :
    Agree R True (k.batch h ⟨context, p⟩ interval w) (k.batch h' ⟨context, p'⟩ interval w') := by
  obtain ⟨outcome, world, walk⟩ :=
    tal.batchFrames context hp interval k.ahead 0 k.cursor k.trail (tal.enter hw)
  exact ⟨outcome, tal.leave hw world, walk⟩

end walks

/-! ## Sweeps -/

theorem store (tal : h.Tallies h' P R) (hw : R w w') (p p' : Published) (walk : Option Walk)
    (e : Epoch) (b : Position) (done : Bool) :
    (Sweep.store h' b done ⟨p', walk, e⟩ w').1 = (Sweep.store h b done ⟨p, walk, e⟩ w).1 ∧
      R (Sweep.store h b done ⟨p, walk, e⟩ w).2 (Sweep.store h' b done ⟨p', walk, e⟩ w').2 := by
  refine ⟨rfl, ?_⟩
  simp only [Sweep.store]
  rw [tal.label hw]
  exact tal.record _ (tal.record _ hw)

/-- What is published comes from the walk and the epoch. Of what was published before it matters
only whether that said that the campaign is over. -/
theorem publish (tal : h.Tallies h' P R) (hw : R w w') {p p' : Published} (walk : Option Walk)
    {e : Epoch} (word : p'.word = .pack e true ↔ p.word = .pack e true) :
    Agree R (p' = p ∨ (Sweep.publish h ⟨p, walk, e⟩ w).1 = none)
      (Sweep.publish h ⟨p, walk, e⟩ w) (Sweep.publish h' ⟨p', walk, e⟩ w') := by
  have ended {met : Prop} : Agree R met
      ((none : Option Fault), Sweep.storeDone h ⟨p, walk, e⟩ w)
      (none, Sweep.storeDone h' ⟨p', walk, e⟩ w') := by
    obtain ⟨sweep, world⟩ := tal.store hw p p' walk e .none true
    refine ⟨rfl, ?_, fun _ => sweep⟩
    simp only [Sweep.storeDone]
    rw [sweep, tal.label hw]
    by_cases closed : p.word = .pack e true
    · simp only [Sweep.published_store, word.2 closed, closed, if_true]
      exact world
    · simp only [Sweep.published_store, mt word.1 closed, closed, if_false]
      exact tal.record _ world
  cases walk with
  | none => exact ended
  | some k =>
    simp only [Sweep.publish]
    split
    · split
      · exact ⟨rfl, hw, by simp⟩
      · obtain ⟨sweep, world⟩ := tal.store hw p p' (some k) e k.trail.trailing false
        exact ⟨rfl, world, fun _ => sweep⟩
    · exact ended

theorem conclude (tal : h.Tallies h' P R) (hw : R w w') {p p' : Published} (walk : Option Walk)
    {e : Epoch} (word : p'.word = .pack e true ↔ p.word = .pack e true) (o : Outcome ε Unit) :
    Agree R (p' = p ∨ (Sweep.conclude h o ⟨p, walk, e⟩ w).1 = .ok ())
      (Sweep.conclude h o ⟨p, walk, e⟩ w) (Sweep.conclude h' o ⟨p', walk, e⟩ w') := by
  obtain ⟨outcome, world, result⟩ := tal.publish hw walk word
  unfold Sweep.conclude
  generalize Sweep.publish h ⟨p, walk, e⟩ w = r at outcome world result ⊢
  generalize Sweep.publish h' ⟨p', walk, e⟩ w' = r' at outcome world result ⊢
  obtain ⟨x, s₁, w₁⟩ := r
  obtain ⟨x', s₁', w₁'⟩ := r'
  cases outcome
  cases o with
  | unwound y => exact ⟨rfl, hw, by simp⟩
  | ok a =>
    cases x with
    | none => exact ⟨rfl, world, fun _ => result (.inr rfl)⟩
    | some y => exact ⟨rfl, world, fun met => result (met.imp_right nofun)⟩
  | failed err =>
    cases x with
    | none => exact ⟨rfl, world, fun _ => result (.inr rfl)⟩
    | some y => exact ⟨rfl, world, fun met => result (met.imp_right nofun)⟩

/-- A sweep concludes like itself. -/
theorem conclude_same (tal : h.Tallies h' P R) (hw : R w w') (s : Sweep) (o : Outcome ε Unit) :
    Agree R True (s.conclude h o w) (s.conclude h' o w') := by
  have agree := tal.conclude hw (p := s.published) s.walk (e := s.epoch) Iff.rfl o
  exact agree.imp fun _ => .inl rfl

section starts

variable {s s' : Sweep} (context : Option Nat)

theorem announced (tal : h.Tallies h' P R) (conc : h.Concurs h' Q R) (hq : Q w w') :
    Q (Sweep.announced h w) (Sweep.announced h' w') := by
  unfold Sweep.announced
  rw [tal.label (conc.weaken hq), tal.kind, conc.epoch hq]
  exact conc.started _ _ (conc.read hq)

theorem firstSteps (tal : h.Tallies h' P R) (conc : h.Concurs h' Q R) (hq : Q w w')
    (hp : P s.published s'.published) :
    Agree R True (s.firstSteps h context w) (s'.firstSteps h' context w') := by
  have frames : w'.thread.frames = w.thread.frames := by
    unfold Thread.frames
    rw [(conc.stack hq).1]
  unfold Sweep.firstSteps
  rw [frames, tal.pacing]
  exact tal.steps context hp _ _ (conc.walk (tal.announced conc hq))

/-- If the start succeeds, the sweeps are the same from then on. -/
theorem start (tal : h.Tallies h' P R) (conc : h.Concurs h' Q R) (hq : Q w w')
    (hp : P s.published s'.published) (alike : s.Alike (w.readEpoch h.kind).1 s') :
    Agree R (s' = s ∨ (s.start h context w).1 = .ok ()) (s.start h context w)
      (s'.start h' context w') := by
  have epoch : (w'.readEpoch h'.kind).1 = (w.readEpoch h.kind).1 := by
    rw [tal.kind]
    exact conc.epoch hq
  have stack : w'.thread.hasWalkableStack = w.thread.hasWalkableStack := by
    unfold Thread.hasWalkableStack
    rw [(conc.stack hq).1, (conc.stack hq).2]
  have published (same : s' = s) : s'.published = s.published := congrArg Sweep.published same
  have dropped {o : Outcome ε Unit} (failed : o ≠ .ok ()) :
      s' = s ∨ o = .ok () → { s' with walk := none } = { s with walk := none } := by
    rintro (rfl | ok)
    · rfl
    · exact absurd ok failed
  cases walkable : w.thread.hasWalkableStack with
  | false =>
    rw [Sweep.start_of_not_walkable walkable, Sweep.start_of_not_walkable (stack.trans walkable),
      epoch]
    have agree := tal.conclude (conc.weaken (tal.announced conc hq)) none alike.word (.ok ())
    exact agree.imp (Or.imp_left published)
  | true =>
    obtain ⟨o, k, w₁, w₁', left, right, world⟩ :=
      (tal.firstSteps context conc hq hp).split trivial
    rw [Sweep.start_of_walkable_eq walkable, Sweep.start_of_walkable_eq (stack.trans walkable),
      epoch, left, right]
    cases o with
    | ok _ =>
      simp only
      rw [tal.label world]
      have told := tal.record (.installed (h.label w₁) (w.readEpoch h.kind).1) world
      have agree := tal.conclude told (some k) alike.word (.ok ())
      exact agree.imp (Or.imp_left published)
    | failed err =>
      simp only
      rw [tal.label world, tal.describe]
      exact ⟨rfl, tal.record _ world, dropped nofun⟩
    | unwound x => exact ⟨rfl, world, dropped nofun⟩

end starts

/-! ## Turns -/

section turns

variable {s s' : Sweep} (context : Option Nat)

theorem ensureStarted (tal : h.Tallies h' P R) (conc : h.Concurs h' Q R) (hq : Q w w')
    (hp : P s.published s'.published) (now : s.Alike (w.readEpoch h.kind).1 s')
    (next : s.isStale (w.readEpoch h.kind).1 = true →
      s.Alike ((w.readEpoch h.kind).2.readEpoch h.kind).1 s') :
    Agree R (s' = s ∨ (s.ensureStarted h context w).1 = .ok ()) (s.ensureStarted h context w)
      (s'.ensureStarted h' context w') := by
  unfold Sweep.ensureStarted
  simp only [tal.kind, conc.epoch hq]
  by_cases stale : s.isStale (w.readEpoch h.kind).1 = true
  · simp only [now.isStale, stale, if_true]
    exact tal.start context conc (conc.read hq) hp (next stale)
  · simp only [now.isStale, stale]
    exact ⟨rfl, conc.weaken (conc.read hq), fun _ => now.eq_of_current stale⟩

theorem increment (tal : h.Tallies h' P R) (conc : h.Concurs h' Q R) (hq : Q w w')
    (hp : P s.published s'.published) (now : s.Alike (w.readEpoch h.kind).1 s')
    (next : s.isStale (w.readEpoch h.kind).1 = true →
      s.Alike ((w.readEpoch h.kind).2.readEpoch h.kind).1 s') :
    Agree R (s' = s ∨ (s.ensureStarted h none w).1 = .ok ()) (s.increment h w)
      (s'.increment h' w') := by
  unfold Sweep.increment Sweep.ensureStarted
  simp only [tal.kind, conc.epoch hq]
  by_cases stale : s.isStale (w.readEpoch h.kind).1 = true
  · simp only [now.isStale, stale, if_true]
    exact tal.start none conc (conc.read hq) hp (next stale)
  · obtain rfl := now.eq_of_current stale
    have world := conc.weaken (conc.read hq)
    simp only [stale]
    cases s'.walk with
    | none => exact ⟨rfl, world, fun _ => rfl⟩
    | some k =>
      obtain ⟨outcome, world, walk⟩ := tal.step none (tal.same s'.published) k world
      simp only
      rw [outcome, walk trivial]
      exact (tal.conclude_same world _ _).imp fun _ => trivial

/-- A drain that goes on does not look at the epoch, nor does it begin a walk. -/
theorem drainBatch (tal : h.Tallies h' P R) (hw : R w w') (s : Sweep) :
    Agree R True (Stage.drainBatch h context s w) (Stage.drainBatch h' context s w') := by
  unfold Stage.drainBatch
  cases s.walk with
  | none => exact (tal.conclude_same hw s (.ok ())).ended
  | some k =>
    obtain ⟨o, k, w₁, w₁', left, right, world⟩ :=
      (tal.batch context (tal.same s.published) h.pacing.framesPerYield k hw).split trivial
    simp only [tal.pacing, left, right]
    cases o with
    | failed e => exact (tal.conclude_same world _ _).ended
    | unwound x => exact ⟨rfl, world, fun _ => rfl⟩
    | ok stop =>
      cases stop with
      | exhausted => exact (tal.conclude_same world _ _).ended
      | interval =>
        have agree := tal.publish world (p := s.published) (some k) (e := s.epoch) Iff.rfl
        obtain ⟨x, s₁, w₂, w₂', left, right, world⟩ := agree.split (.inl rfl)
        simp only [left, right]
        cases x with
        | none => exact ⟨rfl, tal.yield _ world, fun _ => rfl⟩
        | some x => exact ⟨rfl, world, fun _ => rfl⟩

theorem drainFirst (tal : h.Tallies h' P R) (conc : h.Concurs h' Q R) (hq : Q w w')
    (hp : P s.published s'.published) (now : s.Alike (w.readEpoch h.kind).1 s')
    (next : s.isStale (w.readEpoch h.kind).1 = true →
      s.Alike ((w.readEpoch h.kind).2.readEpoch h.kind).1 s') :
    Agree R (s' = s ∨ (s.ensureStarted h context w).1 = .ok ()) (Stage.drainFirst h context s w)
      (Stage.drainFirst h' context s' w') := by
  obtain ⟨outcome, world, result⟩ := tal.ensureStarted context conc hq hp now next
  unfold Stage.drainFirst
  generalize s.ensureStarted h context w = r at outcome world result ⊢
  generalize s'.ensureStarted h' context w' = r' at outcome world result ⊢
  obtain ⟨o, s₁, w₁⟩ := r
  obtain ⟨o', s₁', w₁'⟩ := r'
  cases outcome
  cases o with
  | failed e => exact ⟨rfl, world, result⟩
  | unwound x => exact ⟨rfl, world, result⟩
  | ok _ =>
    cases result (.inr rfl)
    simp only
    cases s₁.walk with
    | none =>
      exact (tal.conclude_same world s₁ (.ok ())).ended.imp fun _ => trivial
    | some k =>
      simp only
      rw [tal.label world]
      have begun := tal.record (.draining (h.label w₁)) world
      exact (tal.drainBatch context begun s₁).imp fun _ => trivial

/-- A call begins alike in both. -/
theorem openWith (tal : h.Tallies h' P R) (conc : h.Concurs h' Q R) (c : Call) (hq : Q w w')
    (now : c = .request → s.Alike (w.readEpoch h.kind).1 s') :
    (c.openWith h' s'.published w').1 = (c.openWith h s.published w).1 ∧
      Q (c.openWith h s.published w).2 (c.openWith h' s'.published w').2 := by
  have frames : w'.thread.frames = w.thread.frames := by
    unfold Thread.frames
    rw [(conc.stack hq).1]
  have top : w'.thread.topFrame? = w.thread.topFrame? := by
    unfold Thread.topFrame? Thread.lastFrame? Thread.sender?
    rw [frames]
  have sender : w'.thread.sender? = w.thread.sender? := by
    funext f
    unfold Thread.sender?
    rw [frames]
  cases c with
  | request =>
    simp only [Call.openWith, tal.kind, conc.epoch hq, (now rfl).isOf]
    exact ⟨trivial, conc.read hq⟩
  | iterate f =>
    simp only [Call.openWith, tal.onIteration]
    exact ⟨trivial, hq⟩
  | beforeUnwind =>
    simp only [Call.openWith, top, sender]
    exact ⟨trivial, hq⟩
  | afterUnwind =>
    simp only [Call.openWith, top]
    exact ⟨trivial, hq⟩
  | increment => exact ⟨rfl, hq⟩
  | drain context => exact ⟨rfl, hq⟩
  | secure f => exact ⟨rfl, hq⟩
  | judge f => exact ⟨rfl, hq⟩
  | locate => exact ⟨rfl, hq⟩

theorem isSafe (tal : h.Tallies h' P R) (conc : h.Concurs h' Q R) (hq : Q w w')
    (now : s.Alike (w.readEpoch h.kind).1 s') (f : Frame) :
    (s'.isSafe h' f w').1 = (s.isSafe h f w).1 := by
  have position : w'.thread.decidingPosition f = w.thread.decidingPosition f := by
    unfold Thread.decidingPosition Thread.sender? Thread.frames
    rw [(conc.stack hq).1]
  simp only [Sweep.isSafe, tal.kind, conc.epoch hq, World.thread_readEpoch, position,
    Sweep.isSafeAt, now.isStale]
  by_cases stale : s.isStale (w.readEpoch h.kind).1 = true
  · simp only [stale, if_true]
  · rw [now.eq_of_current stale]

theorem lastBoundary (tal : h.Tallies h' P R) (conc : h.Concurs h' Q R) (hq : Q w w')
    (now : s.Alike (w.readEpoch h.kind).1 s') :
    (s'.lastBoundary h' w').1 = (s.lastBoundary h w).1 := by
  simp only [Sweep.lastBoundary, tal.kind, conc.epoch hq, Sweep.processedBoundary, now.isStale]
  by_cases stale : s.isStale (w.readEpoch h.kind).1 = true
  · simp only [stale, Bool.true_or, if_true]
  · rw [now.eq_of_current stale]

/-- A turn takes the same course in both, and if the campaign has been started when it ends, by this
turn or before, the sweeps have become the same. -/
theorem turn (tal : h.Tallies h' P R) (conc : h.Concurs h' Q R) (stage : Stage) (hq : Q w w')
    (hp : P s.published s'.published) (now : s.Alike (w.readEpoch h.kind).1 s')
    (next : ∀ c, stage.context? = some c → s.isStale (w.readEpoch h.kind).1 = true →
      s.Alike ((w.readEpoch h.kind).2.readEpoch h.kind).1 s')
    (resumes : ∀ c, stage = .resume c → s' = s) :
    Agree R
      (s' = s ∨ ∃ c, stage.context? = some c ∧ (s.ensureStarted h c w).1 = .ok ())
      (stage.turn h s w) (stage.turn h' s' w') := by
  have look := conc.weaken (conc.read hq)
  have epoch : (w'.readEpoch h'.kind).1 = (w.readEpoch h.kind).1 := by
    rw [tal.kind]
    exact conc.epoch hq
  have ensured {c : Option (Option Nat)} {d : Option Nat} (hc : c = some d) :
      (s' = s ∨ ∃ e, c = some e ∧ (s.ensureStarted h e w).1 = .ok ()) →
        s' = s ∨ (s.ensureStarted h d w).1 = .ok () := by
    rintro (same | ⟨e, he, ok⟩)
    · exact .inl same
    · cases hc.symm.trans he
      exact .inr ok
  have looked (t : Turn ε) {c : Option (Option Nat)} (hc : c = none) :
      Agree R (s' = s ∨ ∃ e, c = some e ∧ (s.ensureStarted h e w).1 = .ok ())
        (t, s, (w.readEpoch h.kind).2) (t, s', (w'.readEpoch h'.kind).2) := by
    rw [tal.kind]
    refine ⟨rfl, conc.weaken (conc.read hq), ?_⟩
    rintro (same | ⟨e, he, -⟩)
    · exact same
    · cases hc.symm.trans he
  cases stage with
  | increment =>
    exact (tal.increment conc hq hp now (next none rfl)).ended.imp (ensured rfl)
  | start =>
    exact (tal.ensureStarted none conc hq hp now (next none rfl)).ended.imp (ensured rfl)
  | drain context =>
    exact (tal.drainFirst context conc hq hp now (next context rfl)).imp (ensured rfl)
  | resume context =>
    obtain rfl := resumes context rfl
    exact (tal.drainBatch context (conc.weaken hq) s').imp fun _ => trivial
  | approach f =>
    obtain ⟨outcome, world, result⟩ := tal.increment conc hq hp now (next none rfl)
    simp only [Stage.turn]
    generalize s.increment h w = r at outcome world result ⊢
    generalize s'.increment h' w' = r' at outcome world result ⊢
    obtain ⟨o, s₁, w₁⟩ := r
    obtain ⟨o', s₁', w₁'⟩ := r'
    cases outcome
    cases o with
    | ok _ => exact ⟨rfl, world, fun met => result (ensured rfl met)⟩
    | failed e => exact ⟨rfl, world, fun met => result (ensured rfl met)⟩
    | unwound x => exact ⟨rfl, world, fun met => result (ensured rfl met)⟩
  | secure f =>
    simp only [Stage.turn]
    rw [tal.isSafe conc hq now f]
    exact looked _ rfl
  | judge f =>
    simp only [Stage.turn]
    rw [tal.isSafe conc hq now f]
    exact looked _ rfl
  | locate =>
    simp only [Stage.turn]
    rw [tal.lastBoundary conc hq now]
    exact looked _ rfl

end turns

end Host.Tallies

end StackSweep
