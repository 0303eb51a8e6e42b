import StackSweep.Proofs.Resting

/-!
# Ways out of a step

A step ends where the processor refuses a frame, behind the first frame that has a barrier, or at
the end of the stack. The frames that it has passed by then are behind the walk, however it ends,
and a frame that was refused is the next one to be tried. The trail gets one new boundary at most:
the position of the last frame that was passed, if there is one and frames are left.
-/

namespace StackSweep

variable {ς ε : Type}

namespace Trail

/-- The second trail is the first one with `p` as its new boundary. -/
structure Receives (t : Trail) (p : Position) (t' : Trail) : Prop where
  first : t = ⟨.none, .none⟩ → t' = ⟨p, .none⟩
  second : ∀ a, a ≠ .none → t = ⟨a, .none⟩ → t' = ⟨a, p⟩
  later : ∀ a b, a ≠ .none → b ≠ .none → t = ⟨a, b⟩ → t' = ⟨b, p⟩

/-- The second trail is the first one with this boundary as its only new one, if there is one. -/
def Takes (t : Trail) : Option Position → Trail → Prop
  | some p, t' => t.Receives p t'
  | none, t' => t' = t

theorem receives_record (t : Trail) (p : Position) : t.Receives p (t.record p) := by
  refine ⟨?_, ?_, ?_⟩
  · rintro rfl
    exact record_empty p
  · rintro a ha rfl
    exact record_single ha
  · rintro a b ha hb rfl
    exact record_full ha hb

end Trail

namespace Bracket

variable {w w' : World ς}

/-- Visits within a bracket are visits from before it to after it. -/
theorem visited_around {vs : List (Visit × Verdict)}
    (inner : Visited (Bracket.enter w).2.log vs w'.log) :
    Visited w.log vs ((Bracket.enter w).1.leave w').log := by
  simpa using ((Bracket.visited_enter w).trans inner).trans (Bracket.visited_leave _ w')

/-- A bracket with nothing in it leaves the world as it was, but for its log. -/
theorem leave_enter (w : World ς) :
    { (Bracket.enter w).1.leave (Bracket.enter w).2 with log := w.log } = w := by
  have thread := Bracket.thread_leave_enter w
  obtain ⟨t, epochs, sweeps, held, log, rest⟩ := w
  exact congrArg (fun t => World.mk t epochs sweeps held log rest) thread

end Bracket

namespace Walk

/-! ## Frames that do not stop a step -/

/-- Where a step stands in the end that stood at `last` and has passed these frames. -/
def lastOf (last : Position) (passed : List Frame) : Position :=
  (passed.getLast?.map Frame.position).getD last

theorem lastOf_cons (last : Position) (f : Frame) (passed : List Frame) :
    lastOf last (f :: passed) = lastOf f.position passed := by
  cases hp : passed.getLast? <;> simp [lastOf, List.getLast?_cons, hp]

@[simp] theorem lastOf_concat (last : Position) (passed : List Frame) (f : Frame) :
    lastOf last (passed ++ [f]) = f.position := by
  simp [lastOf]

/-- The visit in which a pass hands out a frame. -/
def Shared.visit (sh : Shared) (cursor : Nat) (f : Frame) : Visit :=
  ⟨f, cursor, sh.context, sh.published⟩

/-- The visits of a pass that has processed these frames, latest first. -/
def Shared.visits (sh : Shared) (cursor : Nat) : List Frame → List (Visit × Verdict)
  | [] => []
  | f :: rest => sh.visits (cursor + 1) rest ++ [(sh.visit cursor f, .processed)]

theorem Shared.visits_append (sh : Shared) (fs gs : List Frame) : ∀ cursor : Nat,
    sh.visits cursor (fs ++ gs) = sh.visits (cursor + fs.length) gs ++ sh.visits cursor fs := by
  induction fs with
  | nil => exact fun cursor => (List.append_nil _).symm
  | cons f fs ih =>
    intro cursor
    simp only [List.cons_append, visits, ih, List.append_assoc, List.length_cons]
    rw [Nat.add_right_comm, Nat.add_assoc cursor]

@[simp] theorem processedIn_visits (sh : Shared) (fs : List Frame) : ∀ cursor : Nat,
    processedIn (sh.visits cursor fs) = fs := by
  induction fs with
  | nil => exact fun _ => rfl
  | cons f fs ih =>
    intro cursor
    simp [Shared.visits, processedIn_append, processedIn, Shared.visit, ih]

theorem Shared.processed_of_mem_visits {sh : Shared} {fs : List Frame} {x : Visit × Verdict} :
    ∀ {cursor : Nat}, x ∈ sh.visits cursor fs → x.2 = .processed := by
  induction fs with
  | nil => nofun
  | cons f fs ih =>
    intro cursor hx
    rcases List.mem_append.1 hx with hx | hx
    · exact ih hx
    · rw [List.mem_singleton.1 hx]

/-- From the one world to the other all these frames are processed, and none of them has a barrier
when it is handed out. -/
inductive Clears (h : Host ς ε) (sh : Shared) : Nat → List Frame → World ς → World ς → Prop
  | nil {cursor w} : Clears h sh cursor [] w w
  | cons {cursor f rest w w₁ w₂} : h.visit (sh.visit cursor f) w = (.ok (), w₁) →
      h.hasBarrier f w = false → Clears h sh (cursor + 1) rest w₁ w₂ →
      Clears h sh cursor (f :: rest) w w₂

section frames

variable {h : Host ς ε} {sh : Shared} {cursor : Nat} {f : Frame} {w : World ς}

/-- A frame that is refused is where the frames of a step end. -/
theorem stepFrames_of_refused (refused : (h.visit (sh.visit cursor f) w).1 ≠ .ok ())
    (last : Position) (rest : List Frame) :
    stepFrames h sh last cursor (f :: rest) w =
      ⟨(h.visit (sh.visit cursor f) w).1, last, cursor, f :: rest,
        (h.visit (sh.visit cursor f) w).2⟩ := by
  unfold Shared.visit at refused ⊢
  unfold stepFrames
  generalize h.visit ⟨f, cursor, sh.context, sh.published⟩ w = r at refused ⊢
  obtain ⟨o, w'⟩ := r
  cases o with
  | ok _ => exact absurd rfl refused
  | failed e => rfl
  | unwound x => rfl

/-- A frame that is processed is where they end exactly if it has a barrier. -/
theorem stepFrames_of_processed (processed : (h.visit (sh.visit cursor f) w).1 = .ok ())
    (last : Position) (rest : List Frame) :
    stepFrames h sh last cursor (f :: rest) w =
      if h.hasBarrier f w then
        ⟨.ok (), f.position, cursor + 1, rest, (h.visit (sh.visit cursor f) w).2⟩
      else stepFrames h sh f.position (cursor + 1) rest (h.visit (sh.visit cursor f) w).2 := by
  unfold Shared.visit at processed ⊢
  rw [stepFrames]
  generalize h.visit ⟨f, cursor, sh.context, sh.published⟩ w = r at processed ⊢
  obtain ⟨o, w'⟩ := r
  cases processed
  rfl

end frames

section clears

variable {h : Host ς ε} {sh : Shared} {cursor : Nat} {fs passed : List Frame} {w w₁ : World ς}

theorem Clears.visited (clears : Clears h sh cursor passed w w₁) :
    Visited w.log (sh.visits cursor passed) w₁.log := by
  induction clears with
  | nil => exact .refl
  | @cons cursor f rest w w₁ w₂ processed _ _ ih =>
    have seen := h.visited (sh.visit cursor f) w
    rw [processed] at seen
    exact seen.trans ih

/-- A step goes over such frames and on to those behind them. -/
theorem Clears.stepFrames_eq (clears : Clears h sh cursor passed w w₁) (rest : List Frame) :
    ∀ last : Position, stepFrames h sh last cursor (passed ++ rest) w =
      stepFrames h sh (lastOf last passed) (cursor + passed.length) rest w₁ := by
  induction clears with
  | nil => exact fun _ => rfl
  | @cons cursor f passed w w₁ w₂ processed plain _ ih =>
    intro last
    rw [List.cons_append, stepFrames_of_processed (congrArg Prod.fst processed), plain, processed,
      if_neg Bool.false_ne_true, ih f.position, lastOf_cons, List.length_cons, Nat.add_assoc,
      Nat.add_comm 1]

/-- Some frames do not stop a step. The one behind them is refused, or it is processed and has a
barrier, unless there is none. -/
theorem exists_clears (h : Host ς ε) (sh : Shared) (fs : List Frame) :
    ∀ (cursor : Nat) (w : World ς), ∃ passed w₁, Clears h sh cursor passed w w₁ ∧
      (passed = fs ∨ ∃ f rest, fs = passed ++ f :: rest ∧
        ((h.visit (sh.visit (cursor + passed.length) f) w₁).1 ≠ .ok () ∨
          (h.visit (sh.visit (cursor + passed.length) f) w₁).1 = .ok () ∧
            h.hasBarrier f w₁ = true)) := by
  induction fs with
  | nil => exact fun _ w => ⟨[], w, .nil, .inl rfl⟩
  | cons f rest ih =>
    intro cursor w
    by_cases processed : (h.visit (sh.visit cursor f) w).1 = .ok ()
    · by_cases barred : h.hasBarrier f w = true
      · exact ⟨[], w, .nil, .inr ⟨f, rest, rfl, .inr ⟨processed, barred⟩⟩⟩
      · rw [Bool.not_eq_true] at barred
        obtain ⟨passed, w₁, clears, stop⟩ := ih (cursor + 1) (h.visit (sh.visit cursor f) w).2
        refine ⟨f :: passed, w₁, .cons (Prod.ext processed rfl) barred clears, ?_⟩
        rw [List.length_cons, Nat.add_comm passed.length, ← Nat.add_assoc]
        rcases stop with rfl | ⟨g, later, rfl, stop⟩
        · exact .inl rfl
        · exact .inr ⟨g, later, rfl, stop⟩
    · exact ⟨[], w, .nil, .inr ⟨f, rest, rfl, .inl processed⟩⟩

end clears

/-! ## The step -/

/-- The boundary that is new after these frames were passed and the others are left. -/
def newBoundary (passed rest : List Frame) : Option Position :=
  if rest = [] then none else passed.getLast?.map Frame.position

/-- What a step of `k` leaves behind that has passed these frames, with the rest still ahead, and
whose further visits were these. -/
structure Leaves (sh : Shared) (k : Walk) (w : World ς) (o : Outcome ε Unit)
    (passed rest : List Frame) (others : List (Visit × Verdict))
    (r : Outcome ε Unit × Walk × World ς) : Prop where
  outcome : r.1 = o
  visited : Visited w.log (others ++ sh.visits k.cursor passed) r.2.2.log
  cursor : r.2.1.cursor = k.cursor + passed.length
  ahead : r.2.1.ahead = rest
  trail : k.trail.Takes (newBoundary passed rest) r.2.1.trail

/-- The processor refuses the frame that follows on those that have been passed, and none of these
has a barrier. -/
structure Refuses (h : Host ς ε) (sh : Shared) (k : Walk) (w : World ς) (passed : List Frame)
    (f : Frame) (rest : List Frame) (w₁ : World ς) : Prop where
  split : k.ahead = passed ++ f :: rest
  clears : Clears h sh k.cursor passed (Bracket.enter w).2 w₁
  refused : (h.visit (sh.visit (k.cursor + passed.length) f) w₁).1 ≠ .ok ()

/-- The frame that follows on those that have been passed is processed, and it is the first that has
a barrier. -/
structure Stops (h : Host ς ε) (sh : Shared) (k : Walk) (w : World ς) (passed : List Frame)
    (f : Frame) (rest : List Frame) (w₁ : World ς) : Prop where
  split : k.ahead = passed ++ f :: rest
  clears : Clears h sh k.cursor passed (Bracket.enter w).2 w₁
  processed : (h.visit (sh.visit (k.cursor + passed.length) f) w₁).1 = .ok ()
  barred : h.hasBarrier f w₁ = true

section step

variable {h : Host ς ε} {sh : Shared} {k : Walk} {w : World ς} {passed rest : List Frame}

/-- What its frames have led to makes up the step. -/
theorem leaves_of_stepFrames {r : Stepped ε ς} {others : List (Visit × Verdict)}
    (found : ∀ f ∈ passed, f.position ≠ .none)
    (frames : stepFrames h sh .none k.cursor k.ahead (Bracket.enter w).2 = r)
    (last : r.last = lastOf .none passed)
    (cursor : r.cursor = k.cursor + passed.length) (ahead : r.ahead = rest)
    (seen : Visited (Bracket.enter w).2.log (others ++ sh.visits k.cursor passed) r.world.log) :
    Leaves sh k w r.outcome passed rest others (k.step h sh w) := by
  have log := Bracket.visited_around seen
  unfold step
  simp only [frames]
  rcases List.eq_nil_or_concat passed with rfl | ⟨ys, g, rfl⟩
  · -- No frame was passed, so that there is nothing to record.
    have missing : r.last = .none := last
    simp only [missing, Position.isNone_none, if_true]
    refine ⟨rfl, log, cursor, ahead, ?_⟩
    rw [newBoundary, List.getLast?_nil, Option.map_none, ite_self]
    rfl
  · rw [List.concat_eq_append] at *
    rw [lastOf_concat] at last
    have there : g.position.isNone = false := by
      rw [Bool.eq_false_iff, Ne, Position.isNone_iff]
      exact found g (by simp)
    simp only [last, there, Bool.false_eq_true, if_false]
    refine ⟨rfl, log, ?_, ?_, ?_⟩
    · rw [cursor_record]
      exact cursor
    · rw [ahead_record]
      exact ahead
    · by_cases done : rest = []
      · rw [newBoundary, if_pos done, record_of_done (by simp [hasNext, ahead, done])]
        rfl
      · have more : (Walk.mk r.cursor r.ahead k.trail).hasNext = true :=
          hasNext_iff.2 (ahead ▸ done)
        rw [newBoundary, if_neg done, List.getLast?_concat, Walk.record, if_pos more]
        exact k.trail.receives_record g.position

theorem Refuses.leaves {f : Frame} {w₁ : World ς} (refuses : Refuses h sh k w passed f rest w₁)
    (found : ∀ f ∈ k.ahead, f.position ≠ .none) :
    Leaves sh k w (h.visit (sh.visit (k.cursor + passed.length) f) w₁).1 passed (f :: rest)
      [(sh.visit (k.cursor + passed.length) f,
        (h.visit (sh.visit (k.cursor + passed.length) f) w₁).1.verdict)] (k.step h sh w) := by
  obtain ⟨split, clears, refused⟩ := refuses
  have frames := clears.stepFrames_eq (f :: rest) .none
  rw [← split, stepFrames_of_refused refused] at frames
  exact leaves_of_stepFrames (fun g hg => found g (split ▸ List.mem_append_left _ hg)) frames rfl
    rfl rfl (clears.visited.trans (h.visited _ w₁))

theorem Stops.leaves {f : Frame} {w₁ : World ς} (stops : Stops h sh k w passed f rest w₁)
    (found : ∀ f ∈ k.ahead, f.position ≠ .none) :
    Leaves sh k w (.ok ()) (passed ++ [f]) rest [] (k.step h sh w) := by
  obtain ⟨split, clears, processed, barred⟩ := stops
  have frames := clears.stepFrames_eq (f :: rest) .none
  rw [← split, stepFrames_of_processed processed, if_pos barred] at frames
  have seen := h.visited (sh.visit (k.cursor + passed.length) f) w₁
  rw [processed] at seen
  refine leaves_of_stepFrames ?_ frames ?_ ?_ rfl ?_
  · intro g hg
    refine found g ?_
    rw [split, List.append_cons]
    exact List.mem_append_left _ hg
  · simp
  · simp [Nat.add_assoc]
  · rw [List.nil_append, Shared.visits_append]
    exact clears.visited.trans seen

theorem Clears.leaves {w₁ : World ς}
    (clears : Clears h sh k.cursor k.ahead (Bracket.enter w).2 w₁)
    (found : ∀ f ∈ k.ahead, f.position ≠ .none) :
    Leaves sh k w (.ok ()) k.ahead [] [] (k.step h sh w) := by
  have frames := clears.stepFrames_eq [] .none
  rw [List.append_nil] at frames
  exact leaves_of_stepFrames found frames rfl rfl rfl clears.visited

/-- If the processor refuses a frame before one with a barrier has been passed, its error or
unwinding is that of the step. The frames before have been handed out in order and then this one,
which is next again, and the position of the last frame before it is the only new boundary, if there
is such a frame. In any other case the step succeeds and has processed the frames up to and
including the first that has a barrier, or all of them. The position of the last one is the only new
boundary if frames are left, and there is none otherwise. A walk with no frame left calls nothing
and stays as it is, and so does all the world but for the bookkeeping in its log. -/
theorem leaves_of_step (h : Host ς ε) (sh : Shared) (k : Walk) (w : World ς)
    (found : ∀ f ∈ k.ahead, f.position ≠ .none) :
    (∀ passed f rest w₁, Refuses h sh k w passed f rest w₁ →
      Leaves sh k w (h.visit (sh.visit (k.cursor + passed.length) f) w₁).1 passed (f :: rest)
        [(sh.visit (k.cursor + passed.length) f,
          (h.visit (sh.visit (k.cursor + passed.length) f) w₁).1.verdict)] (k.step h sh w)) ∧
    ((∀ passed f rest w₁, ¬ Refuses h sh k w passed f rest w₁) →
      (∃ passed f rest w₁, Stops h sh k w passed f rest w₁ ∧
        Leaves sh k w (.ok ()) (passed ++ [f]) rest [] (k.step h sh w)) ∨
      (∃ w₁, Clears h sh k.cursor k.ahead (Bracket.enter w).2 w₁) ∧
        Leaves sh k w (.ok ()) k.ahead [] [] (k.step h sh w)) ∧
    (k.ahead = [] → (k.step h sh w).1 = .ok () ∧ (k.step h sh w).2.1 = k ∧
      Visited w.log [] (k.step h sh w).2.2.log ∧
      { (k.step h sh w).2.2 with log := w.log } = w) := by
  refine ⟨fun _ _ _ _ refuses => refuses.leaves found, ?_, ?_⟩
  · intro never
    obtain ⟨passed, w₁, clears, stop⟩ := exists_clears h sh k.ahead k.cursor (Bracket.enter w).2
    rcases stop with rfl | ⟨f, rest, split, refused | ⟨processed, barred⟩⟩
    · exact .inr ⟨⟨w₁, clears⟩, clears.leaves found⟩
    · exact absurd ⟨split, clears, refused⟩ (never passed f rest w₁)
    · have stops : Stops h sh k w passed f rest w₁ := ⟨split, clears, processed, barred⟩
      exact .inl ⟨passed, f, rest, w₁, stops, stops.leaves found⟩
  · intro done
    rw [step_of_done done]
    exact ⟨rfl, rfl, visited_bracket w, Bracket.leave_enter w⟩

end step

/-- A processor that refuses one frame, on a stack without barriers. -/
def picky : Host Bool String :=
  { Site.moody with
    hasBarrier := fun _ _ => false
    process := fun v w => (if v.frame.id = 1 then .failed "refused" else .ok (), w) }

/-- The second of four frames is refused: the first one is passed and is the new boundary. -/
theorem leaves_of_picky :
    ((ofFrames Site.fourFrames).step picky ⟨none, .settled 0⟩ Site.fresh.world).1 =
        .failed "refused" ∧
      ((ofFrames Site.fourFrames).step picky ⟨none, .settled 0⟩ Site.fresh.world).2.1 =
        ⟨1, Site.fourFrames.tail, ⟨⟨10⟩, .none⟩⟩ := by
  obtain ⟨refused, -⟩ := leaves_of_step picky ⟨none, .settled 0⟩ (ofFrames Site.fourFrames)
    Site.fresh.world (by decide +kernel)
  have leaves := refused [⟨0, ⟨10⟩, true, false⟩] ⟨1, ⟨20⟩, true, false⟩ (Site.fourFrames.drop 2) _
    ⟨rfl, .cons rfl rfl .nil, by decide +kernel⟩
  have cursor := leaves.cursor
  have ahead := leaves.ahead
  have trail := leaves.trail.first rfl
  refine ⟨leaves.outcome, ?_⟩
  generalize (ofFrames Site.fourFrames).step picky ⟨none, .settled 0⟩ Site.fresh.world = r
    at cursor ahead trail ⊢
  obtain ⟨o, ⟨c, fs, t⟩, w⟩ := r
  cases cursor
  cases ahead
  cases trail
  rfl

end Walk

end StackSweep
