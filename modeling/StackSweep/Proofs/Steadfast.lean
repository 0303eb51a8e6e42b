import StackSweep.Proofs.Retries
import StackSweep.Proofs.Tandem

/-!
# Epochs that move during an operation

The epoch may move on while an operation is at work, at the hands of the processor. An operation
that works on the campaign reads the epoch before it hands out any frame and never afterwards, so
that it goes on with the campaign that it has begun and ends as if nothing had happened. If it
publishes an epoch that is no longer current by then, the sweep is stale for the current one.
-/

namespace StackSweep

variable {ς ς' ε : Type}

/-! ## Operations without interruption -/

/-- The call works on the campaign as a whole. -/
def Call.Works : Call → Prop
  | .increment | .request | .drain _ => True
  | _ => False

namespace Stage

variable {h : Host ς ε}

/-- The stage belongs to such a call. -/
def Works : Stage → Prop
  | .increment | .start | .drain _ | .resume _ => True
  | _ => False

/-- How many frames the walk in place has left. -/
def left (s : Sweep) : Nat :=
  match s.walk with
  | some k => k.ahead.length
  | none => 0

/-- A batch that stops before the end has passed at least one frame. -/
theorem batchFrames_left (h : Host ς ε) (sh : Walk.Shared) (interval : Nat) (fs : List Frame) :
    ∀ (seen cursor : Nat) (t : Trail) (w : World ς),
      (Walk.batchFrames h sh interval seen cursor t fs w).1 = .ok .interval →
      (Walk.batchFrames h sh interval seen cursor t fs w).2.1.ahead.length < fs.length := by
  induction fs with
  | nil => exact fun _ _ _ _ stopped => by cases stopped
  | cons f rest ih =>
    intro seen cursor t w
    unfold Walk.batchFrames
    split
    · simp
    · split
      · split
        · dsimp only
          split
          · intro _
            rw [Walk.ahead_record]
            exact Nat.lt_succ_self rest.length
          · exact fun stopped => Nat.lt_succ_of_lt (ih _ _ _ _ stopped)
        · exact fun stopped => Nat.lt_succ_of_lt (ih _ _ _ _ stopped)
      · simp
      · simp

/-- A drain that gives up the lock is to resume, and has fewer frames left. -/
theorem drainBatch_cases (h : Host ς ε) (c : Option Nat) (s : Sweep) (w : World ς) :
    (∃ o, (drainBatch h c s w).1 = .finished o) ∨
      (drainBatch h c s w).1 = .yielded (.resume c) ∧ left (drainBatch h c s w).2.1 < left s := by
  unfold drainBatch
  cases hk : s.walk with
  | none => exact .inl ⟨_, rfl⟩
  | some k =>
    have passed := batchFrames_left h ⟨c, s.published⟩ h.pacing.framesPerYield k.ahead 0 k.cursor
      k.trail (Bracket.enter w).2
    have fewer : (k.batch h ⟨c, s.published⟩ h.pacing.framesPerYield w).1 = .ok .interval →
        (k.batch h ⟨c, s.published⟩ h.pacing.framesPerYield w).2.1.ahead.length <
          k.ahead.length := passed
    simp only
    generalize k.batch h ⟨c, s.published⟩ h.pacing.framesPerYield w = r at fewer ⊢
    obtain ⟨o, k', w'⟩ := r
    cases o with
    | failed e => exact .inl ⟨_, rfl⟩
    | unwound x => exact .inl ⟨_, rfl⟩
    | ok stop =>
      cases stop with
      | exhausted => exact .inl ⟨_, rfl⟩
      | interval =>
        have keeps := (Sweep.publish_keeps h { s with walk := some k' } w').1
        simp only
        generalize Sweep.publish h { s with walk := some k' } w' = r at keeps ⊢
        obtain ⟨x, s₁, w₁⟩ := r
        cases x with
        | some x => exact .inl ⟨_, rfl⟩
        | none =>
          have walk : s₁.walk = some k' := keeps
          refine .inr ⟨rfl, ?_⟩
          simp only [left, walk, hk]
          exact fewer rfl

theorem drainFirst_cases (h : Host ς ε) (c : Option Nat) (s : Sweep) (w : World ς) :
    (∃ o, (drainFirst h c s w).1 = .finished o) ∨
      (drainFirst h c s w).1 = .yielded (.resume c) := by
  unfold drainFirst
  generalize s.ensureStarted h c w = r
  obtain ⟨o, s₁, w₁⟩ := r
  cases o with
  | failed e => exact .inl ⟨_, rfl⟩
  | unwound x => exact .inl ⟨_, rfl⟩
  | ok _ =>
    simp only
    cases s₁.walk with
    | none => exact .inl ⟨_, rfl⟩
    | some k => exact (drainBatch_cases h c s₁ _).imp id And.left

/-- If a turn is not the last one, a drain is to resume. -/
theorem turn_cases {stage : Stage} (works : stage.Works) (h : Host ς ε) (s : Sweep) (w : World ς) :
    (∃ o, (stage.turn h s w).1 = .finished o) ∨
      ∃ c, (stage.turn h s w).1 = .yielded (.resume c) := by
  cases stage with
  | increment => exact .inl ⟨_, rfl⟩
  | start => exact .inl ⟨_, rfl⟩
  | drain c => exact (drainFirst_cases h c s w).imp id fun yielded => ⟨c, yielded⟩
  | resume c => exact (drainBatch_cases h c s w).imp id fun yielded => ⟨c, yielded.1⟩
  | _ => cases works

/-- A run is over with its first turn or goes on with a drain that resumes. -/
theorem run_succ {stage : Stage} (works : stage.Works) (h : Host ς ε) (n : Nat) (s : Sweep)
    (w : World ς) :
    (∃ o, run h (n + 1) stage s w = (some o, (stage.turn h s w).2)) ∨
      ∃ c, (stage.turn h s w).1 = .yielded (.resume c) ∧
        run h (n + 1) stage s w =
          run h n (.resume c) (stage.turn h s w).2.1 (stage.turn h s w).2.2 := by
  have next := turn_cases works h s w
  generalize taken : stage.turn h s w = r at next ⊢
  obtain ⟨t, s', w'⟩ := r
  rcases next with ⟨o, rfl⟩ | ⟨c, rfl⟩
  · refine .inl ⟨o, ?_⟩
    rw [run, taken]
  · refine .inr ⟨c, rfl, ?_⟩
    rw [run, taken]

/-- A drain that resumes comes to an end. -/
theorem run_resume_ends (h : Host ς ε) (c : Option Nat) (n : Nat) :
    ∀ (s : Sweep) (w : World ς), left s < n → ∃ o, (run h n (.resume c) s w).1 = some o := by
  induction n with
  | zero => exact fun s _ none => absurd none (Nat.not_lt_zero _)
  | succ n ih =>
    intro s w enough
    have next := drainBatch_cases h c s w
    unfold run
    simp only [turn]
    generalize drainBatch h c s w = r at next ⊢
    obtain ⟨t, s', w'⟩ := r
    rcases next with ⟨o, rfl⟩ | ⟨yielded, fewer⟩
    · exact ⟨o, rfl⟩
    · cases yielded
      exact ih s' w' (by simp only at fewer; omega)

/-- So does any operation that works on the campaign. -/
theorem run_ends {stage : Stage} (works : stage.Works) (h : Host ς ε) (s : Sweep) (w : World ς) :
    ∃ n o, (run h n stage s w).1 = some o := by
  obtain ⟨n, enough⟩ : ∃ n, left (stage.turn h s w).2.1 < n := ⟨_, Nat.lt_succ_self _⟩
  refine ⟨n + 1, ?_⟩
  rcases run_succ works h n s w with ⟨o, last⟩ | ⟨c, -, next⟩
  · rw [last]
    exact ⟨o, rfl⟩
  · rw [next]
    exact run_resume_ends h c n _ _ enough

/-- What the first turn has established and every batch preserves holds after a run. -/
theorem run_leads {stage : Stage} (works : stage.Works) {P : Sweep → List Event → Prop} {s : Sweep}
    {w : World ς} (n : Nat) (first : P (stage.turn h s w).2.1 (stage.turn h s w).2.2.log)
    (batches : ∀ {s log s' log'}, P s log → s.Moves log s' log' → P s' log') :
    P (run h (n + 1) stage s w).2.1 (run h (n + 1) stage s w).2.2.log := by
  induction n generalizing stage s w with
  | zero =>
    rcases run_succ works h 0 s w with ⟨o, last⟩ | ⟨c, -, next⟩
    · rw [last]
      exact first
    · rw [next]
      exact first
  | succ n ih =>
    rcases run_succ works h (n + 1) s w with ⟨o, last⟩ | ⟨c, -, next⟩
    · rw [last]
      exact first
    · rw [next]
      have resumed : Works (.resume c) := trivial
      exact ih resumed (batches first (Sweep.moves_drainBatch h c _ _))

end Stage

/-! ## When the epoch is read -/

/-- The entry neither hands out a frame nor publishes. -/
def Event.IsPrelude : Event → Prop
  | .visit .. | .wordStored .. => False
  | _ => True

/-- The entry reads no epoch, and what it publishes is of one of these. -/
def Event.IsLate (rs : List Epoch) : Event → Prop
  | .epochRead .. => False
  | .wordStored _ w => ∃ e ∈ rs, w.isOf e = true
  | _ => True

/-- Nothing has been handed out or published between the two logs. -/
def Prelude (log log' : List Event) : Prop := Adds Event.IsPrelude log log'

/-- No epoch has been read between the two logs, and what has been published is of one of these. -/
def Lately (rs : List Epoch) (log log' : List Event) : Prop := Adds (Event.IsLate rs) log log'

/-- Between the two logs no epoch is read once a frame has been handed out or something has been
published, and whatever is published is of an epoch that was read before that. -/
def ReadsFirst (log log' : List Event) : Prop :=
  ∃ log₁, Prelude log log₁ ∧ Lately (readings log₁) log₁ log'

section log

variable {rs : List Epoch} {log log₁ log' : List Event} {s s' : Sweep}

theorem Lately.readings_eq (h : Lately rs log log') : readings log' = readings log := by
  obtain ⟨es, rfl, all⟩ := h
  induction es with
  | nil => rfl
  | cons e es ih =>
    obtain ⟨late, rest⟩ := List.forall_mem_cons.1 all
    have same := ih rest
    cases e <;> first | exact same | cases late

theorem Event.isLate_of_isAside {e : Event} (aside : e.isAside = true) : e.IsLate rs := by
  cases e <;> simp_all [Event.isAside, Event.IsLate]

theorem Lately.of_visited {vs : List (Visit × Verdict)} (seen : Visited log vs log') :
    Lately rs log log' :=
  Adds.of_visited (fun _ => Event.isLate_of_isAside) (fun _ _ _ _ _ => trivial) seen

theorem Lately.of_publishes (read : s.epoch.WasRead rs) (published : s.Publishes log s' log') :
    Lately rs log log' := by
  obtain ⟨d, hd, same⟩ := read
  have late (done : Bool) : (ProgressWord.pack s.epoch done).isOf d :=
    ProgressWord.isOf_pack.2 same.symm
  cases published with
  | boundary l => exact .cons (.cons (.refl log) trivial) ⟨d, hd, late false⟩
  | ending l =>
    have stored :
        Lately rs log (.wordStored l (.pack s.epoch true) :: .boundaryStored l .none :: log) :=
      .cons (.cons (.refl log) trivial) ⟨d, hd, late true⟩
    split
    · exact stored
    · exact stored.cons trivial
  | stuck => exact .refl log

theorem Lately.of_moves (read : s.epoch.WasRead rs) (moves : s.Moves log s' log') :
    Lately rs log log' := by
  cases moves with
  | rest => exact .refl log
  | settle _ published => exact .of_publishes read published
  | unwound _ passes =>
    obtain ⟨vs, seen, -⟩ := passes
    exact .of_visited seen
  | @passed k k' _ _ _ _ _ passes published asides =>
    obtain ⟨vs, seen, -⟩ := passes
    have told := Lately.of_publishes (s := { s with walk := some k' }) read published
    exact (Lately.of_visited seen).trans (told.trans (Lately.of_visited asides))

theorem Sweep.Publishes.epoch_eq (published : s.Publishes log s' log') : s'.epoch = s.epoch := by
  cases published <;> rfl

/-- The epoch may be read at the end of a prelude. -/
theorem Prelude.look (before : Prelude log log₁) (i : KindId) (e : Epoch) :
    Prelude log (.epochRead i e :: log₁) :=
  Adds.cons before trivial

theorem Prelude.readsFirst (before : Prelude log log₁) : ReadsFirst log log₁ :=
  ⟨log₁, before, .refl log₁⟩

theorem ReadsFirst.trans (h : ReadsFirst log log₁) (later : Lately (readings log₁) log₁ log') :
    ReadsFirst log log' := by
  obtain ⟨log₂, prelude, before⟩ := h
  rw [before.readings_eq] at later
  exact ⟨log₂, prelude, before.trans later⟩

theorem ReadsFirst.of_moves (h : ReadsFirst log log₁) (read : s.epoch.WasRead (readings log₁))
    (moves : s.Moves log₁ s' log') :
    ReadsFirst log log' ∧ s'.epoch.WasRead (readings log') := by
  have later := Lately.of_moves read moves
  refine ⟨h.trans later, ?_⟩
  rw [later.readings_eq, moves.epoch_eq.1]
  exact read

theorem ReadsFirst.of_starts {begun : Bool} (before : Prelude log log₁)
    (read : s.epoch.WasRead (readings log₁)) (starts : s.Starts log₁ begun s' log') :
    ReadsFirst log log' ∧ s'.epoch.WasRead (readings log') := by
  have begun (i : KindId) (e : Epoch) (l : Label) :
      Prelude log (.started l e :: .epochRead i e :: log₁) :=
    Adds.cons (before.look i e) trivial
  have walks (i : KindId) (e : Epoch) (l : Label) (tid : Nat) (o : WalkOptions) (fs : List Frame) :
      Prelude log (.walk tid o fs :: .started l e :: .epochRead i e :: log₁) :=
    Adds.cons (begun i e l) trivial
  cases starts with
  | idle i e l published =>
    have e_read := Epoch.wasRead_self e (readings log₁)
    have told := Lately.of_publishes (s := { s with walk := none, epoch := e }) e_read published
    refine ⟨(begun i e l).readsFirst.trans told, ?_⟩
    rw [told.readings_eq, published.epoch_eq]
    exact e_read
  | dropped i e l tid o fs passes asides =>
    obtain ⟨vs, seen, -⟩ := passes
    have later : Lately (e :: readings log₁) _ log' :=
      (Lately.of_visited seen).trans (Lately.of_visited asides)
    refine ⟨(walks i e l tid o fs).readsFirst.trans later, ?_⟩
    rw [asides.readings_eq, seen.readings_eq]
    exact read.cons e
  | @installed k _ _ _ i e l l' tid o fs passes _ published =>
    obtain ⟨vs, seen, -⟩ := passes
    have e_read := Epoch.wasRead_self e (readings log₁)
    have told := Lately.of_publishes (s := { s with walk := some k, epoch := e }) e_read published
    have later : Lately (e :: readings log₁) _ log' :=
      (Adds.cons (Lately.of_visited seen) (e := .installed l' e) trivial).trans told
    refine ⟨(walks i e l tid o fs).readsFirst.trans later, ?_⟩
    rw [later.readings_eq, published.epoch_eq]
    exact e_read

theorem ReadsFirst.of_turns (before : Prelude log log₁) (read : s.epoch.WasRead (readings log₁))
    (turned : s.Turns log₁ s' log') :
    ReadsFirst log log' ∧ s'.epoch.WasRead (readings log') := by
  cases turned with
  | looked i e => exact ⟨(before.look i e).readsFirst, read.cons e⟩
  | resumed moves => exact before.readsFirst.of_moves read moves
  | current i e _ asides moves =>
    have look := (before.look i e).readsFirst.trans (Lately.of_visited asides)
    refine look.of_moves ?_ moves
    rw [asides.readings_eq]
    exact read.cons e
  | renewed i e _ starts asides moves =>
    obtain ⟨first, read'⟩ := ReadsFirst.of_starts (before.look i e) (read.cons e) starts
    refine (first.trans (Lately.of_visited asides)).of_moves ?_ moves
    rw [asides.readings_eq]
    exact read'

end log

/-! ## Calls -/

namespace Call

variable {h : Host ς ε} {c : Call}

/-- Without the lock the epoch is read at most. Then the call is settled or goes on with a stage. -/
theorem run_of_works (works : c.Works) (h : Host ς ε) (s : Sweep) (w : World ς) :
    ∃ w₁, (w₁ = w ∨ w₁ = (w.readEpoch h.kind).2) ∧
      ((∀ n, c.run h n s w = (some (.ok .nothing), s, w₁)) ∨
        ∃ stage : Stage, stage.Works ∧ ∀ n, c.run h n s w = stage.run h n s w₁) := by
  cases c with
  | increment => exact ⟨w, .inl rfl, .inr ⟨.increment, trivial, fun _ => rfl⟩⟩
  | drain context => exact ⟨w, .inl rfl, .inr ⟨.drain context, trivial, fun _ => rfl⟩⟩
  | request =>
    refine ⟨_, .inr rfl, ?_⟩
    by_cases of : s.published.word.isOf (w.readEpoch h.kind).1 = true
    · left
      intro n
      simp only [run, openWith, of, if_true]
    · right
      simp only [run, openWith, of]
      exact ⟨.start, trivial, fun _ => rfl⟩
  | _ => cases works

theorem run_ends (works : c.Works) (h : Host ς ε) (s : Sweep) (w : World ς) :
    ∃ n o, (c.run h n s w).1 = some o := by
  obtain ⟨w₁, -, settled | ⟨stage, goes, run⟩⟩ := run_of_works works h s w
  · exact ⟨0, _, congrArg Prod.fst (settled 0)⟩
  · obtain ⟨n, o, ended⟩ := Stage.run_ends goes h s w₁
    exact ⟨n, o, (congrArg Prod.fst (run n)).trans ended⟩

/-- What holds after a call follows from what reading the epoch preserves and a turn establishes. -/
theorem run_leads (works : c.Works) {P Q : Sweep → List Event → Prop} {s : Sweep} {w : World ς}
    (n : Nat) (now : P s w.log) (read : ∀ e, P s w.log → P s (.epochRead h.kind e :: w.log))
    (rest : ∀ {log}, P s log → Q s log)
    (first : ∀ {log s' log'}, P s log → s.Turns log s' log' → Q s' log')
    (batches : ∀ {s log s' log'}, Q s log → s.Moves log s' log' → Q s' log')
    (hv : h.pacing.Valid) : Q (c.run h n s w).2.1 (c.run h n s w).2.2.log := by
  obtain ⟨w₁, reads, course⟩ := run_of_works works h s w
  have now₁ : P s w₁.log := by
    rcases reads with rfl | rfl
    · exact now
    · exact read _ now
  rcases course with settled | ⟨stage, goes, run⟩
  · rw [settled]
    exact rest now₁
  · rw [run]
    cases n with
    | zero => exact rest now₁
    | succ n => exact Stage.run_leads goes n (first now₁ (Sweep.turns_turn h hv stage s w₁)) batches

theorem run_readsFirst (works : c.Works) (hv : h.pacing.Valid) (n : Nat) {s : Sweep} {w : World ς}
    (read : s.epoch.WasRead (readings w.log)) :
    ReadsFirst w.log (c.run h n s w).2.2.log := by
  have leads := run_leads (h := h) works
    (P := fun s' log => Prelude w.log log ∧ s'.epoch.WasRead (readings log))
    (Q := fun s' log => ReadsFirst w.log log ∧ s'.epoch.WasRead (readings log)) (s := s) n
    ⟨.refl _, read⟩ (fun e now => ⟨now.1.look h.kind e, now.2.cons e⟩)
    (fun now => ⟨now.1.readsFirst, now.2⟩)
    (fun now turned => ReadsFirst.of_turns now.1 now.2 turned)
    (fun now moves => now.1.of_moves now.2 moves) hv
  exact leads.1

theorem run_accounted (works : c.Works) (hv : h.pacing.Valid) (birth : Epoch) (n : Nat) {s : Sweep}
    {w : World ς} (acc : s.Accounted (attempts birth w.log)) :
    (c.run h n s w).2.1.Accounted (attempts birth (c.run h n s w).2.2.log) :=
  run_leads (h := h) works (P := fun s' log => s'.Accounted (attempts birth log))
    (Q := fun s' log => s'.Accounted (attempts birth log)) n acc (fun _ now => now) id
    Sweep.accounted_turns (fun now moves => Sweep.accounted_turns now (.resumed moves)) hv

end Call

/-! ## The same with the epoch kept -/

/-- The same host with a processor that leaves the epochs as they are. -/
def Host.still (h : Host ς ε) : Host ς ε :=
  { h with process := fun v w =>
      ((h.process v w).1, { (h.process v w).2 with epochs := w.epochs }) }

/-- How processing ends does not depend on the epoch. The relation says which worlds the processor
does not distinguish: it may do with the epoch whatever it likes as long as that never changes how
it ends. -/
structure Host.IgnoresEpoch (h : Host ς ε) (S : World ς → World ς → Prop) : Prop where
  refl (w : World ς) : S w w
  epochs {w w'} (a : Authority) : S w w' → S w { w' with epochs := a }
  log {w w'} (l l' : List Event) : S w w' → S { w with log := l } { w' with log := l' }
  tid {w w'} : S w w' → w'.thread.tid = w.thread.tid
  enter {w w'} : S w w' → S (Bracket.enter w).2 (Bracket.enter w').2
  leave {v v' w w'} : S v v' → S w w' →
    S ((Bracket.enter v).1.leave w) ((Bracket.enter v').1.leave w')
  barrier {w w'} (f : Frame) : S w w' → h.hasBarrier f w' = h.hasBarrier f w
  process {w w'} (v : Visit) : S w w' →
    (h.process v w').1 = (h.process v w).1 ∧ S (h.process v w).2 (h.process v w').2

/-- The entry as far as it tells what was done, without what happened inside a visit. -/
def Event.outline? : Event → Option Event
  | .visit l v _ d => some (.visit l v [] d)
  | e => if e.isAside then none else some e

/-- The frames that were handed out, what was published, and all else but bookkeeping. -/
def outline (log : List Event) : List Event := log.filterMap Event.outline?

theorem outline_visited {log log' : List Event} (asides : Visited log [] log') :
    outline log' = outline log := by
  generalize hvs : ([] : List (Visit × Verdict)) = vs at asides
  induction asides with
  | refl => rfl
  | @aside _ _ e _ aside ih =>
    rw [← ih hvs, outline, outline, List.filterMap_cons]
    cases e <;> simp_all [Event.isAside, Event.outline?]
  | visit => cases hvs

theorem outline_cons {e : Event} {log log' : List Event} (same : outline log' = outline log) :
    outline (e :: log') = outline (e :: log) := by
  unfold outline at same ⊢
  rw [List.filterMap_cons, List.filterMap_cons, same]

/-- Worlds that differ in nothing that matters to the processor, after the same has been done. -/
def World.Parallel (S : World ς → World ς → Prop) (w w' : World ς) : Prop :=
  S w w' ∧ outline w'.log = outline w.log

namespace Host.IgnoresEpoch

variable {h : Host ς ε} {S : World ς → World ς → Prop}

theorem tallies (ignores : h.IgnoresEpoch S) : h.Tallies h.still Eq (World.Parallel S) where
  kind := rfl
  pacing := rfl
  onIteration := rfl
  describe := rfl
  same _ := rfl
  tid par := ignores.tid par.1
  record := by
    rintro w w' e ⟨like, same⟩
    exact ⟨ignores.log _ _ like, outline_cons same⟩
  yield := by
    rintro w w' n ⟨like, same⟩
    exact ⟨ignores.log _ _ like, same⟩
  enter := by
    rintro w w' ⟨like, same⟩
    refine ⟨ignores.enter like, ?_⟩
    rw [outline_visited (Bracket.visited_enter w), outline_visited (Bracket.visited_enter w')]
    exact same
  leave := by
    rintro v v' w w' ⟨before, -⟩ ⟨like, same⟩
    refine ⟨ignores.leave before like, ?_⟩
    rw [outline_visited (Bracket.visited_leave _ w), outline_visited (Bracket.visited_leave _ w')]
    exact same
  barrier f par := ignores.barrier f par.1
  visit := by
    rintro w w' p p' f registers context ⟨like, same⟩ rfl
    obtain ⟨outcome, after⟩ := ignores.process ⟨f, registers, context, p⟩ (ignores.log [] [] like)
    have label : h.still.label w' = h.label w := by
      unfold Host.label
      rw [ignores.tid like]
      rfl
    refine ⟨outcome, ignores.log _ _ (ignores.epochs w'.epochs after), ?_⟩
    show Event.visit (h.still.label w') _ [] (h.process _ _).1.verdict :: outline w'.log =
      Event.visit (h.label w) _ [] (h.process _ _).1.verdict :: outline w.log
    rw [label, outcome, same]

theorem concurs (ignores : h.IgnoresEpoch S) : h.Concurs h.still Eq (World.Parallel S) where
  weaken := by
    rintro w _ rfl
    exact ⟨ignores.refl w, rfl⟩
  epoch := by
    rintro w _ rfl
    rfl
  read := by
    rintro w _ rfl
    rfl
  started := by
    rintro w _ l e rfl
    rfl
  stack := by
    rintro w _ rfl
    exact ⟨rfl, rfl⟩
  walk := by
    rintro w _ rfl
    exact ⟨ignores.refl _, rfl⟩

end Host.IgnoresEpoch

/-! ## Two runs of one call -/

namespace Host.Tallies

variable {h : Host ς ε} {h' : Host ς' ε} {P : Published → Published → Prop}
  {Q R : World ς → World ς' → Prop} {w : World ς} {w' : World ς'}

theorem run_resume (tal : h.Tallies h' P R) (c : Option Nat) (n : Nat) :
    ∀ (s : Sweep) {w : World ς} {w' : World ς'}, R w w' →
      Agree R True (Stage.run h n (.resume c) s w) (Stage.run h' n (.resume c) s w') := by
  induction n with
  | zero => exact fun _ _ _ hw => ⟨rfl, hw, fun _ => rfl⟩
  | succ n ih =>
    intro s w w' hw
    have next := Stage.drainBatch_cases h c s w
    obtain ⟨t, s₁, w₁, w₁', left, right, world⟩ := (tal.drainBatch c hw s).split trivial
    simp only [Stage.run, Stage.turn, left, right] at next ⊢
    rcases next with ⟨o, rfl⟩ | ⟨yielded, -⟩
    · exact ⟨rfl, world, fun _ => rfl⟩
    · cases yielded
      exact ih s₁ world

theorem run (tal : h.Tallies h' P R) (conc : h.Concurs h' Q R) (stage : Stage)
    (works : stage.Works) (n : Nat) (s : Sweep) (hq : Q w w') :
    Agree R True (Stage.run h n stage s w) (Stage.run h' n stage s w') := by
  cases n with
  | zero => exact ⟨rfl, conc.weaken hq, fun _ => rfl⟩
  | succ n =>
    have next := Stage.turn_cases works h s w
    have agree := tal.turn conc stage hq (tal.same s.published) (.inl rfl)
      (fun _ _ _ => .inl rfl) (fun _ _ => rfl)
    obtain ⟨t, s₁, w₁, w₁', left, right, world⟩ := agree.split (.inl rfl)
    simp only [Stage.run, left, right] at next ⊢
    rcases next with ⟨o, rfl⟩ | ⟨c, rfl⟩
    · exact ⟨rfl, world, fun _ => rfl⟩
    · exact tal.run_resume c n s₁ world

/-- A call takes the same course in both. -/
theorem call_run (tal : h.Tallies h' P R) (conc : h.Concurs h' Q R) {c : Call} (works : c.Works)
    (n : Nat) (s : Sweep) (hq : Q w w') : Agree R True (c.run h n s w) (c.run h' n s w') := by
  cases c with
  | increment => exact tal.run conc .increment trivial n s hq
  | drain context => exact tal.run conc (.drain context) trivial n s hq
  | request =>
    have next := conc.read hq
    simp only [Call.run, Call.openWith, tal.kind, conc.epoch hq]
    by_cases of : s.published.word.isOf (w.readEpoch h.kind).1 = true
    · simp only [of, if_true]
      exact ⟨rfl, conc.weaken next, fun _ => rfl⟩
    · simp only [of]
      exact tal.run conc .start trivial n s next
  | _ => cases works

end Host.Tallies

/-! ## Every call at every site -/

/-- To everyone who asks or wants progress, the current campaign has still to be started, and it is
started by walking the stack anew. -/
structure Sweep.Renews (h : Host ς ε) (birth : Epoch) (s : Sweep) (w : World ς) : Prop where
  stale : s.phase (w.readEpoch h.kind).1 = .stale
  unsafe_all : ∀ f, (s.isSafe h f w).1 = false
  request : (Call.request.openWith h s.published w).1 = .needs .start
  walks : ∀ (stage : Stage) (context : Option Nat), stage.context? = some context →
    ∃ a, attempts birth (stage.turn h s w).2.2.log = a :: attempts birth w.log ∧
      a.snapshot = Sweep.snapshot? w ∧ ∀ fs, a.snapshot = some fs → a.GoesThrough fs

namespace Site

/-- What the epoch does during a call that nobody interrupts, and what it does not do. -/
structure IsSteadfast (h : Host ς ε) (birth : Epoch) (site : Site ς) (c : Call) : Prop where
  /-- Given turns enough, the call ends. -/
  ends : ∃ n o, (c.run h n site.sweep site.world).1 = some o
  /-- The same comes of it if the epoch stays. -/
  same : ∀ n, (c.run h.still n site.sweep site.world).1 = (c.run h n site.sweep site.world).1 ∧
    (c.run h.still n site.sweep site.world).2.1 = (c.run h n site.sweep site.world).2.1 ∧
    outline (c.run h.still n site.sweep site.world).2.2.log =
      outline (c.run h n site.sweep site.world).2.2.log
  /-- It publishes no epoch but one that was read before the first frame was handed out. -/
  early : ∀ n, ReadsFirst site.world.log (c.run h n site.sweep site.world).2.2.log
  /-- If another epoch is current in the end, the campaign is still to be started. -/
  later : ∀ n s w, (c.run h n site.sweep site.world).2 = (s, w) →
    s.published.word.isOf (w.readEpoch h.kind).1 = false → s.Renews h birth w

variable {h : Host ς ε} {birth : Epoch} {site : Site ς} {S : World ς → World ς → Prop}

/-- The epoch of a sweep has been read. -/
theorem Reachable.epoch_wasRead (r : Reachable h birth site) :
    site.sweep.epoch.WasRead (readings site.world.log) :=
  r.preserved (P := fun s log => s.epoch.WasRead (readings log)) (Epoch.wasRead_self birth [])
    fun read turned => (ReadsFirst.of_turns (.refl _) read turned).2

/-- An increment, a request or a drain that nobody interrupts comes to the same end whether the
processor moves the epoch on or not, with the same frames handed out, the same walk left and the
same published. What it publishes is of an epoch that it has read before it hands out any frame.
If that is no longer the current one in the end, no frame is safe and the current campaign starts
from scratch. -/
theorem steadfast_of_reachable (ignores : h.IgnoresEpoch S) (r : Reachable h birth site) {c : Call}
    (works : c.Works) : site.IsSteadfast h birth c := by
  refine ⟨c.run_ends works h _ _, ?_, ?_, ?_⟩
  · intro n
    obtain ⟨outcome, world, result⟩ :=
      ignores.tallies.call_run ignores.concurs works n site.sweep rfl
    exact ⟨outcome, result trivial, world.2⟩
  · exact fun n => c.run_readsFirst works r.valid n r.epoch_wasRead
  · intro n s w ended other
    have acc := c.run_accounted works r.valid birth n r.accounted
    rw [ended] at acc
    have stale : s.isStale (w.readEpoch h.kind).1 = true := by
      rw [Sweep.isStale, other]
      rfl
    refine ⟨Sweep.isStale_iff_phase.1 stale, Sweep.isSafe_of_isStale stale,
      Sweep.request_of_isStale stale, ?_⟩
    exact fun stage context starts => Sweep.walks_of_stale r.valid acc starts stale

/-- A processor during whose work the second campaign is called for. -/
def drifting : Host Bool String :=
  { moody with process := fun _ w => (.ok (), { w with epochs := .cells [2] }) }

theorem ignoresEpoch_drifting : drifting.IgnoresEpoch fun w w' => w'.thread.tid = w.thread.tid where
  refl _ := rfl
  epochs _ like := like
  log _ _ like := like
  tid like := like
  enter like := like
  leave _ like := like
  barrier _ _ := rfl
  process _ like := ⟨rfl, like⟩

theorem reachable_drifting : Reachable drifting 0 (fresh.moveOn 1 false) := by
  have made : Reachable drifting 0 fresh :=
    .created
      (w := .ofThread ⟨1, some fourFrames, true, 0, false, 0, 0, none, false⟩ (.cells [0]) false)
      rfl rfl
  exact made.step (.change _ rfl)

/-- A drain for the first campaign. -/
def drained : Option (Outcome String Answer) × Sweep × World Bool :=
  (Call.drain none).run drifting 9 (fresh.moveOn 1 false).sweep (fresh.moveOn 1 false).world

/-- The drain ends well and its campaign is over, as it would be if the epoch had stayed, but the
sweep is stale. -/
theorem steadfast_of_drifting :
    drained.1 = some (.ok .nothing) ∧ drained.2.1.published = .settled 1 ∧
    ((Call.drain none).run drifting.still 9 (fresh.moveOn 1 false).sweep
      (fresh.moveOn 1 false).world).2.1 = drained.2.1 ∧
    drained.2.1.phase (drained.2.2.readEpoch drifting.kind).1 = .stale := by
  have steadfast := steadfast_of_reachable ignoresEpoch_drifting reachable_drifting
    (c := .drain none) trivial
  have other : drained.2.1.published.word.isOf (drained.2.2.readEpoch drifting.kind).1 = false := by
    decide +kernel
  exact ⟨by decide +kernel, by decide +kernel, (steadfast.same 9).2.1,
    (steadfast.later 9 _ _ rfl other).stale⟩

end Site

end StackSweep
