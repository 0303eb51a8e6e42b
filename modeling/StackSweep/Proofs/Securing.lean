import StackSweep.Proofs.Assertions
import StackSweep.Proofs.Backing
import StackSweep.Proofs.Calm
import StackSweep.Proofs.Steadfast

/-!
# Securing a frame

To secure a frame is to ask whether it is safe and to make an increment as long as it is not.
Nothing in the loop counts down. It ends because an increment that succeeds starts the campaign or
passes a frame, and because a campaign with no frame left is over, so that every frame is safe. This
needs a sweep that never has a walk without frames left and a word that says otherwise.
-/

namespace StackSweep

variable {ς ε : Type}

/-! ## Visits of an operation -/

/-- The visits that a log tells of, latest first. -/
def handed : List Event → List (Visit × Verdict)
  | [] => []
  | .visit _ v _ d :: earlier => (v, d) :: handed earlier
  | _ :: earlier => handed earlier

/-- The later log continues the earlier one, and these are the visits that it adds, latest first. -/
def Hands (log : List Event) (vs : List (Visit × Verdict)) (log' : List Event) : Prop :=
  ∃ es, log' = es ++ log ∧ handed es = vs

theorem handed_append (es log : List Event) : handed (es ++ log) = handed es ++ handed log := by
  induction es with
  | nil => rfl
  | cons e es ih => cases e <;> simp [handed, ih]

theorem handed_cons_of_isQuiet {e : Event} (quiet : e.IsQuiet) (log : List Event) :
    handed (e :: log) = handed log := by
  cases e <;> first | rfl | cases quiet

namespace Hands

variable {log log₁ log' : List Event} {vs ws : List (Visit × Verdict)}

theorem refl (log : List Event) : Hands log [] log := ⟨[], rfl, rfl⟩

theorem trans (hands : Hands log vs log₁) (hands' : Hands log₁ ws log') :
    Hands log (ws ++ vs) log' := by
  obtain ⟨es, rfl, rfl⟩ := hands
  obtain ⟨es', rfl, rfl⟩ := hands'
  exact ⟨es' ++ es, (List.append_assoc _ _ _).symm, handed_append es' es⟩

/-- Entries that hand out nothing may follow. -/
theorem quiet (hands : Hands log vs log₁) (hands' : Hands log₁ [] log') : Hands log vs log' :=
  hands.trans hands'

/-- They may come before as well. -/
theorem after (hands : Hands log₁ vs log') (first : Hands log [] log₁) : Hands log vs log' := by
  have both := first.trans hands
  rwa [List.append_nil] at both

theorem cons (hands : Hands log vs log') {e : Event} (he : e.IsQuiet) :
    Hands log vs (e :: log') := by
  obtain ⟨es, rfl, rfl⟩ := hands
  exact ⟨e :: es, rfl, handed_cons_of_isQuiet he es⟩

theorem suffix (hands : Hands log vs log') : log <:+ log' := by
  obtain ⟨es, rfl, -⟩ := hands
  exact List.suffix_append _ _

theorem of_visited (seen : Visited log vs log') : Hands log vs log' := by
  induction seen with
  | refl => exact refl log
  | aside _ aside ih => exact ih.cons (Event.isQuiet_of_isAside aside)
  | visit l v inside d _ ih =>
    obtain ⟨es, rfl, rfl⟩ := ih
    exact ⟨.visit l v inside d :: es, rfl, rfl⟩

theorem of_publishes {s s' : Sweep} (published : s.Publishes log s' log') : Hands log [] log' := by
  cases published with
  | boundary => exact ⟨[_, _], rfl, rfl⟩
  | ending l =>
    have stored :
        Hands log [] (.wordStored l (.pack s.epoch true) :: .boundaryStored l .none :: log) :=
      ⟨[_, _], rfl, rfl⟩
    split
    · exact stored
    · exact stored.cons trivial
  | stuck => exact refl log

/-- The log before and after tells which visits were added. -/
theorem unique (hands : Hands log vs log') (hands' : Hands log ws log') : vs = ws := by
  obtain ⟨es, rfl, rfl⟩ := hands
  obtain ⟨es', same, rfl⟩ := hands'
  rw [List.append_cancel_right same]

end Hands

/-- An operation that succeeds has made no visit but such as succeeded, and one that fails has
failed as its last visit did. -/
inductive Host.Answers (h : Host ς ε) (log : List Event) : Outcome ε Unit → List Event → Prop
  | thrived {vs log'} : Hands log vs log' → (∀ x ∈ vs, x.2 = .processed) →
      Answers h log (.ok ()) log'
  | failed {vs e log'} (v : Visit) (w : World ς) : Hands log vs w.log →
      (∀ x ∈ vs, x.2 = .processed) → (h.visit v w).1 = .failed e →
      Hands (h.visit v w).2.log [] log' → Answers h log (.failed e) log'
  | unwound {log'} (x : Fault) : log <:+ log' → Answers h log (.unwound x) log'

namespace Host.Answers

variable {h : Host ς ε} {o : Outcome ε Unit} {log log₁ log' : List Event}
  {vs : List (Visit × Verdict)}

theorem of_ends (ends : h.Ends log o log') : h.Answers log o log' := by
  cases ends with
  | thrived seen all => exact .thrived (.of_visited seen) all
  | refused v w seen all ho _ asides =>
    cases o with
    | ok _ => contradiction
    | failed e => exact .failed v w (.of_visited seen) all ho (.of_visited asides)
    | unwound x =>
      exact .unwound x (seen.suffix.trans ((h.visited v w).suffix.trans asides.suffix))

theorem suffix (answers : h.Answers log o log') : log <:+ log' := by
  cases answers with
  | thrived hands => exact hands.suffix
  | failed v w hands _ _ last =>
    exact hands.suffix.trans ((h.visited v w).suffix.trans last.suffix)
  | unwound _ suffix => exact suffix

/-- Visits that succeeded may come before. -/
theorem after (answers : h.Answers log₁ o log') (hands : Hands log vs log₁)
    (all : ∀ x ∈ vs, x.2 = .processed) : h.Answers log o log' := by
  have both {ws : List (Visit × Verdict)} (all' : ∀ x ∈ ws, x.2 = .processed) :
      ∀ x ∈ ws ++ vs, x.2 = .processed :=
    fun x hx => (List.mem_append.1 hx).elim (all' x) (all x)
  cases answers with
  | thrived hands' all' => exact .thrived (hands.trans hands') (both all')
  | failed v w hands' all' ho last => exact .failed v w (hands.trans hands') (both all') ho last
  | unwound x suffix => exact .unwound x (hands.suffix.trans suffix)

/-- What succeeds goes on with whatever comes next. -/
theorem trans (answers : h.Answers log (.ok ()) log₁) (next : h.Answers log₁ o log') :
    h.Answers log o log' := by
  cases answers with
  | thrived hands all => exact next.after hands all

theorem quiet (answers : h.Answers log o log₁) (hands : Hands log₁ [] log') :
    h.Answers log o log' := by
  cases answers with
  | thrived hands' all => exact .thrived (hands'.quiet hands) all
  | failed v w hands' all ho last => exact .failed v w hands' all ho (last.quiet hands)
  | unwound x suffix => exact .unwound x (suffix.trans hands.suffix)

/-- Among the visits of an operation that ends there is one that failed exactly if it failed. -/
theorem failed_iff (answers : h.Answers log o log') (ends : ∀ x, o ≠ .unwound x)
    (hands : Hands log vs log') : (∃ e, o = .failed e) ↔ ∃ x ∈ vs, x.2 = .failed := by
  cases answers with
  | thrived hands' all =>
    rw [hands.unique hands']
    refine ⟨nofun, ?_⟩
    rintro ⟨x, hx, failed⟩
    rw [all x hx] at failed
    cases failed
  | failed v w hands' _ ho last =>
    have visit := Hands.of_visited (h.visited v w)
    rw [hands.unique ((hands'.trans visit).quiet last), ho]
    exact ⟨fun _ => ⟨_, List.mem_cons_self, rfl⟩, fun _ => ⟨_, rfl⟩⟩
  | unwound x => exact absurd rfl (ends x)

end Host.Answers

/-! ## What an increment answers -/

namespace Sweep

variable {h : Host ς ε} {s : Sweep} {w : World ς} {o : Outcome ε Unit} {log : List Event}

/-- A conclusion hands out nothing. -/
theorem hands_conclude (h : Host ς ε) (o : Outcome ε Unit) (s : Sweep) (w : World ς) :
    Hands w.log [] (s.conclude h o w).2.2.log := by
  cases o with
  | ok _ => exact .of_publishes (publishes_conclude h (o := .ok ()) (by simp) s w)
  | failed e => exact .of_publishes (publishes_conclude h (o := .failed e) (by simp) s w)
  | unwound x => exact .refl w.log

theorem answers_conclude (answers : h.Answers log o w.log) (s : Sweep) :
    h.Answers log (s.conclude h o w).1 (s.conclude h o w).2.2.log := by
  have hands := hands_conclude h o s w
  unfold conclude at hands ⊢
  split at hands
  · exact answers
  · split at hands
    · exact answers.quiet hands
    · exact .unwound _ (answers.suffix.trans hands.suffix)

theorem answers_start (context : Option Nat) (s : Sweep) (w : World ς) :
    h.Answers w.log (s.start h context w).1 (s.start h context w).2.2.log := by
  have begun : Hands w.log [] (announced h w).log := ⟨[_, _], rfl, rfl⟩
  have opened : Hands w.log [] (openedLog h w) := ⟨[_, _, _], rfl, rfl⟩
  have steps := (Host.Answers.of_ends (firstSteps_ends h context s w)).after opened nofun
  cases s.departs h context w with
  | idle _ start =>
    rw [start]
    exact answers_conclude (.thrived begun nofun) _
  | begun k w' _ taken start =>
    rw [taken] at steps
    rw [start]
    exact answers_conclude (steps.quiet ⟨[_], rfl, rfl⟩) _
  | refused _ _ ended _ asides =>
    rw [ended]
    exact steps.quiet (.of_visited asides)

theorem answers_ensureStarted (context : Option Nat) (s : Sweep) (w : World ς) :
    h.Answers w.log (s.ensureStarted h context w).1 (s.ensureStarted h context w).2.2.log := by
  have read : Hands w.log [] (w.readEpoch h.kind).2.log := ⟨[_], rfl, rfl⟩
  by_cases stale : s.isStale (w.readEpoch h.kind).1 = true
  · rw [ensureStarted_of_stale h context stale]
    exact (answers_start context s _).after read nofun
  · unfold ensureStarted
    simp only [stale]
    exact .thrived read nofun

/-- An increment on a sweep that is not stale is a step of the walk. -/
theorem increment_of_walk {k : Walk} (current : s.isStale (w.readEpoch h.kind).1 = false)
    (hk : s.walk = some k) :
    s.increment h w =
      conclude h (k.step h ⟨none, s.published⟩ (w.readEpoch h.kind).2).1
        { s with walk := some (k.step h ⟨none, s.published⟩ (w.readEpoch h.kind).2).2.1 }
        (k.step h ⟨none, s.published⟩ (w.readEpoch h.kind).2).2.2 := by
  unfold increment
  simp only [current, hk, Bool.false_eq_true, if_false]

theorem increment_of_no_walk (current : s.isStale (w.readEpoch h.kind).1 = false)
    (hk : s.walk = none) : s.increment h w = (.ok (), s, (w.readEpoch h.kind).2) := by
  unfold increment
  simp only [current, hk, Bool.false_eq_true, if_false]

theorem answers_increment (s : Sweep) (w : World ς) :
    h.Answers w.log (s.increment h w).1 (s.increment h w).2.2.log := by
  have read : Hands w.log [] (w.readEpoch h.kind).2.log := ⟨[_], rfl, rfl⟩
  cases stale : s.isStale (w.readEpoch h.kind).1 with
  | true =>
    rw [increment_of_stale h stale]
    exact (answers_start none s _).after read nofun
  | false =>
    cases hk : s.walk with
    | none =>
      rw [increment_of_no_walk stale hk]
      exact .thrived read nofun
    | some k =>
      rw [increment_of_walk stale hk]
      refine answers_conclude ?_ _
      exact (Host.Answers.of_ends (k.step_ends h _ _)).after read nofun

/-! ## Sweeps that can be moved on -/

/-- The word is for the campaign of the walk, and says that it is over if no frame is left. -/
structure IsLevel (s : Sweep) : Prop where
  word : s.published.word.isOf s.epoch = true
  exhausted : ∀ k, s.walk = some k → k.ahead = [] → s.published.word.isDone = true

/-- A sweep on which increments lead somewhere. -/
structure IsReady (s : Sweep) : Prop extends s.IsLevel where
  sound : s.IsSound

section level

variable {s' : Sweep} {log' : List Event}

theorem isLevel_settled (e : Epoch) : (settled e).IsLevel :=
  ⟨ProgressWord.isOf_pack.2 rfl, nofun⟩

/-- What is published levels a sweep, unless there is no boundary to publish. -/
theorem Publishes.isLevel (published : s.Publishes log s' log')
    (word : s.published.word.isOf s.epoch = true ∨
      ∀ k, s.walk = some k → k.ahead ≠ [] → 0 < k.trail.trailing.addr) : s'.IsLevel := by
  cases published with
  | boundary l hk left found =>
    refine ⟨ProgressWord.isOf_pack.2 rfl, ?_⟩
    intro k hk' done
    cases hk.symm.trans hk'
    exact absurd done left
  | ending l exhausted =>
    exact ⟨ProgressWord.isOf_pack.2 rfl, fun _ _ _ => ProgressWord.isDone_pack _ _⟩
  | stuck hk left missing =>
    refine ⟨word.resolve_right fun found => absurd missing (Nat.ne_of_gt (found _ hk left)), ?_⟩
    intro k hk' done
    cases hk.symm.trans hk'
    exact absurd done left

theorem Moves.isLevel (moves : s.Moves log s' log') (level : s.IsLevel) : s'.IsLevel := by
  cases moves with
  | rest => exact level
  | settle _ published => exact published.isLevel (.inl level.word)
  | unwound hk passes =>
    refine ⟨level.word, ?_⟩
    rintro _ ⟨⟩ done
    exact absurd done (passes.left_of_unwound trivial)
  | passed hk passes published asides => exact published.isLevel (.inl level.word)

theorem Starts.isLevel {begun : Bool} (starts : s.Starts log begun s' log') (level : s.IsLevel)
    (asc : ∀ fs ∈ walked log', Ascending fs) : s'.IsLevel := by
  cases starts with
  | idle i e l published => exact published.isLevel (.inr nofun)
  | dropped => exact ⟨level.word, nofun⟩
  | installed i e l l' tid o fs passes filled published =>
    refine published.isLevel (.inr ?_)
    rintro k ⟨⟩ left
    have suffix := passes.suffix.trans (.trans ⟨[_], rfl⟩ published.suffix)
    exact (filled (asc fs ((walked_suffix suffix).subset List.mem_cons_self)) left).1

theorem Turns.isLevel (turned : s.Turns log s' log') (level : s.IsLevel)
    (asc : ∀ fs ∈ walked log', Ascending fs) : s'.IsLevel := by
  cases turned with
  | looked => exact level
  | resumed moves => exact moves.isLevel level
  | current _ _ _ _ moves => exact moves.isLevel level
  | renewed _ _ _ starts asides moves =>
    refine moves.isLevel (starts.isLevel level fun fs hfs => asc fs ?_)
    exact (walked_suffix (asides.suffix.trans moves.suffix)).subset hfs

end level

/-- Publishing where the walk stands levels a sweep. -/
theorem isLevel_toPublish (s : Sweep) : IsLevel { s with published := s.toPublish } := by
  refine ⟨isOf_toPublish s, ?_⟩
  intro k hk done
  have hk' : s.walk = some k := hk
  have last : k.hasNext = false := by simp [Walk.hasNext, done]
  simp only [toPublish, hk', last]
  exact ProgressWord.isDone_pack _ _

theorem ok_of_conclude_ok (ok : (s.conclude h o w).1 = .ok ()) : o = .ok () := by
  cases o with
  | ok _ => rfl
  | failed e => exact absurd ok (conclude_failed_ne_ok h e s w)
  | unwound x => cases ok

theorem start_isReady (context : Option Nat) (hv : h.pacing.Valid)
    (rising : ∀ fs, snapshot? w = some fs → Rising fs) (ok : (s.start h context w).1 = .ok ()) :
    (s.start h context w).2.1.IsReady ∧
      (s.start h context w).2.1.isStale (w.readEpoch h.kind).1 = false := by
  have level : (s.start h context w).2.1.IsLevel := by
    cases s.departs h context w with
    | idle _ start =>
      rw [start] at ok ⊢
      rw [(conclude_of_ok 0 ok).1]
      exact isLevel_toPublish _
    | begun k w' _ _ start =>
      rw [start] at ok ⊢
      rw [(conclude_of_ok 0 ok).1]
      exact isLevel_toPublish _
    | refused _ refused ended => exact absurd (ended ▸ ok) refused
  refine ⟨⟨level, (fares_start hv rising).sound⟩, ?_⟩
  unfold isStale
  rw [(word_of_start_ok ok).2]
  rfl

/-- Unless a frame is safe for the campaign under way, the walk has frames left, and its leading
boundary does not lie beyond the frame. -/
theorem walk_of_unsafe {e : Epoch} {p : Position} (level : s.IsLevel)
    (current : s.isStale e = false) (beyond : s.isSafeAt e p = false) :
    ∃ k, s.walk = some k ∧ k.ahead ≠ [] ∧ k.trail.leading.addr ≤ p.addr := by
  unfold isSafeAt at beyond
  simp only [current, Bool.false_eq_true, if_false] at beyond
  split at beyond
  · cases beyond
  · rename_i notDone
    split at beyond
    · cases beyond
    · rename_i k hk
      refine ⟨k, hk, fun done => notDone (level.exhausted k hk done), ?_⟩
      rw [Bool.eq_false_iff, Ne, Position.isInner_iff] at beyond
      omega

/-- An increment that succeeds where frames are left passes one of them. -/
theorem increment_passes {k : Walk} (ready : s.IsReady)
    (current : s.isStale (w.readEpoch h.kind).1 = false) (hk : s.walk = some k)
    (left : k.ahead ≠ []) (ok : (s.increment h w).1 = .ok ()) :
    (s.increment h w).2.1.IsReady ∧
      (s.increment h w).2.1.isStale (w.readEpoch h.kind).1 = false ∧
      Stage.left (s.increment h w).2.1 < Stage.left s := by
  obtain ⟨steady, trail⟩ := ready.sound k hk
  have kept := Walk.step_isSteady (h := h) ⟨none, s.published⟩ steady (w.readEpoch h.kind).2
  obtain ⟨-, total, forward⟩ := k.step_cursor h ⟨none, s.published⟩ (w.readEpoch h.kind).2
  rw [increment_of_walk current hk] at ok ⊢
  generalize k.step h ⟨none, s.published⟩ (w.readEpoch h.kind).2 = r at kept total forward ok ⊢
  obtain ⟨o, k', w'⟩ := r
  cases ok_of_conclude_ok ok
  rw [(conclude_of_ok 0 ok).1]
  refine ⟨⟨isLevel_toPublish _, ?_⟩, ?_, ?_⟩
  · rintro _ ⟨⟩
    exact ⟨kept.1, kept.2.1 trail⟩
  · have of : s.published.word.isOf (w.readEpoch h.kind).1 = true := by
      simpa [isStale] using current
    have told := isOf_toPublish { s with walk := some k' }
    rw [ProgressWord.isOf_congr _ (ProgressWord.significant_eq ready.word of)] at told
    unfold isStale
    rw [told]
    rfl
  · have moved := forward rfl left
    simp only [Stage.left, hk]
    simp only at total moved
    omega

end Sweep

namespace Site

/-- If positions ascend along all stacks that were walked, the sweep can be moved on. -/
theorem Reachable.isReady {h : Host ς ε} {birth : Epoch} {site : Site ς}
    (r : Reachable h birth site) (asc : ∀ fs ∈ walked site.world.log, Ascending fs) :
    site.sweep.IsReady := by
  have level := r.preserved
    (P := fun s log => (∀ fs ∈ walked log, Ascending fs) → s.IsLevel)
    (fun _ => Sweep.isLevel_settled birth) fun ih turned asc =>
      turned.isLevel (ih fun fs hfs => asc fs ((walked_suffix turned.suffix).subset hfs)) asc
  exact ⟨level asc, r.isSound fun fs hfs => (asc fs hfs).rising⟩

end Site

/-- While the stack stays, a start walks over frames with rising positions if it has such. -/
theorem Calm.Holds.rising {c : Calm} {w : World ς} (calm : c.Holds w)
    (rising : Rising (c.stack.getD [])) : ∀ fs, Sweep.snapshot? w = some fs → Rising fs := by
  intro fs hfs
  unfold Sweep.snapshot? at hfs
  split at hfs
  · cases hfs
    unfold Thread.frames
    rwa [calm.stack]
  · cases hfs

/-! ## The loop -/

namespace Stage

/-- How many frames are left to the walk in place or, if the campaign is still to be started, to the
walk with which it is started. -/
def toPass (h : Host ς ε) (s : Sweep) (w : World ς) : Nat :=
  if s.isStale (w.readEpoch h.kind).1 then left (s.increment h (w.readEpoch h.kind).2).2.1
  else left s

/-- Securing a frame, increment by increment: how many there are, and what comes of them. -/
inductive Secures (h : Host ς ε) (f : Frame) :
    Nat → Sweep → World ς → Outcome ε Unit → Sweep → World ς → Prop
  | safe {s w} : (s.isSafe h f w).1 = true → Secures h f 0 s w (.ok ()) s (s.isSafe h f w).2
  | refused {s w o s' w'} : (s.isSafe h f w).1 = false →
      s.increment h (s.isSafe h f w).2 = (o, s', w') → o ≠ .ok () → Secures h f 1 s w o s' w'
  | onward {m s w s₁ w₁ o s' w'} : (s.isSafe h f w).1 = false →
      s.increment h (s.isSafe h f w).2 = (.ok (), s₁, w₁) → Secures h f m s₁ w₁ o s' w' →
      Secures h f (m + 1) s w o s' w'

variable {h : Host ς ε} {f : Frame} {m : Nat} {s s' : Sweep} {w w' : World ς}
  {o : Outcome ε Unit}

/-- Each increment takes a turn, and so does each time that the frame is looked at. -/
theorem Secures.run_eq (secures : Secures h f m s w o s' w') :
    run h (2 * m + 1) (.secure f) s w = (some (o.map fun _ => .nothing), s', w') := by
  induction secures with
  | safe safe =>
    unfold run
    simp only [turn, safe, if_true]
    rfl
  | @refused s w o s' w' beyond moved refused =>
    unfold run
    simp only [turn, beyond, Bool.false_eq_true, if_false]
    unfold run
    simp only [turn, moved]
    cases o with
    | ok _ => exact absurd rfl refused
    | failed e => rfl
    | unwound x => rfl
  | @onward m s w s₁ w₁ o s' w' beyond moved _ ih =>
    rw [show 2 * (m + 1) + 1 = 2 * m + 1 + 1 + 1 by omega]
    unfold run
    simp only [turn, beyond, Bool.false_eq_true, if_false]
    unfold run
    simp only [turn, moved]
    exact ih

/-- A run that is over has secured the frame, or has tried to. -/
theorem secures_of_run (n : Nat) : ∀ {s : Sweep} {w : World ς} {a : Outcome ε Answer},
    run h n (.secure f) s w = (some a, s', w') →
    ∃ m o, Secures h f m s w o s' w' ∧ a = o.map fun _ => .nothing := by
  induction n using Nat.strongRecOn with
  | _ n ih =>
    intro s w a done
    cases n with
    | zero => cases done
    | succ n =>
      unfold run at done
      simp only [turn] at done
      cases safe : (s.isSafe h f w).1 with
      | true =>
        simp only [safe, if_true, Prod.mk.injEq, Option.some.injEq] at done
        obtain ⟨rfl, rfl, rfl⟩ := done
        exact ⟨0, .ok (), .safe safe, rfl⟩
      | false =>
        simp only [safe, Bool.false_eq_true, if_false] at done
        cases n with
        | zero => cases done
        | succ n =>
          unfold run at done
          simp only [turn] at done
          generalize moved : s.increment h (s.isSafe h f w).2 = r at done
          obtain ⟨o, s₁, w₁⟩ := r
          cases o with
          | ok _ =>
            obtain ⟨m, o, secures, rfl⟩ := ih n (by omega) done
            exact ⟨m + 1, o, .onward safe moved secures, rfl⟩
          | failed e =>
            cases done
            exact ⟨1, _, .refused safe moved (by simp), rfl⟩
          | unwound x =>
            cases done
            exact ⟨1, _, .refused safe moved (by simp), rfl⟩

/-- A frame is secured once it was found to be safe, or when an increment has not succeeded. -/
theorem Secures.answers (secures : Secures h f m s w o s' w') : h.Answers w.log o w'.log := by
  induction secures with
  | safe => exact .thrived ⟨[_], rfl, rfl⟩ nofun
  | @refused s w _ _ _ _ moved _ =>
    have answers := Sweep.answers_increment (h := h) s (s.isSafe h f w).2
    rw [moved] at answers
    exact answers.after ⟨[_], rfl, rfl⟩ nofun
  | @onward _ s w _ _ _ _ _ _ moved _ ih =>
    have answers := Sweep.answers_increment (h := h) s (s.isSafe h f w).2
    rw [moved] at answers
    exact (answers.after ⟨[_], rfl, rfl⟩ nofun).trans ih

section calm

variable {c : Calm} (hk : c.kinds h.kind) (keeps : h.Respects c.Holds)

include keeps

/-- To look at the frame and to make an increment keeps calm. -/
theorem holds_of_increment (calm : c.Holds w)
    (moved : s.increment h (s.isSafe h f w).2 = (o, s', w')) : c.Holds w' := by
  have after := keeps.increment s (keeps.read calm)
  unfold Sweep.isSafe at moved
  rwa [moved] at after

theorem Secures.holds (secures : Secures h f m s w o s' w') (calm : c.Holds w) : c.Holds w' := by
  induction secures with
  | safe => exact keeps.read calm
  | refused _ moved _ => exact holds_of_increment keeps calm moved
  | onward _ moved _ ih => exact ih (holds_of_increment keeps calm moved)

/-- It does not unwind unless the processor does. -/
theorem Secures.fares (secures : Secures h f m s w o s' w') (calm : c.Holds w)
    (hv : h.pacing.Valid) (rising : Rising (c.stack.getD [])) (sound : s.IsSound) :
    Sweep.Fares h w.log o.fault? s' w'.log := by
  induction secures with
  | safe => exact .quiet sound
  | @refused s w _ _ _ _ moved _ =>
    have later := keeps.read calm
    have fares := Sweep.fares_increment hv sound fun _ => (keeps.read later).rising rising
    unfold Sweep.isSafe at moved
    rw [moved] at fares
    exact fares.after ⟨[_], rfl⟩
  | @onward _ s w _ _ _ _ _ _ moved _ ih =>
    have later := keeps.read calm
    have suffix := Sweep.increment_suffix h s (w.readEpoch h.kind).2
    have fares := Sweep.fares_increment hv sound fun _ => (keeps.read later).rising rising
    have after := holds_of_increment keeps calm moved
    unfold Sweep.isSafe at moved
    rw [moved] at suffix fares
    exact (ih after fares.sound).after (.trans ⟨[_, _], rfl⟩ suffix)

include hk

/-- While epochs and stack stay, a frame that has been secured is safe. -/
theorem Secures.judged (secures : Secures h f m s w o s' w') (calm : c.Holds w)
    (ok : o = .ok ()) : (s'.isSafe h f w').1 = true := by
  induction secures with
  | @safe s w safe =>
    have later := keeps.read calm
    show s.isSafeAt ((w.readEpoch h.kind).2.readEpoch h.kind).1 _ = true
    rw [later.current hk, ← calm.current hk]
    exact safe
  | refused _ _ refused => exact absurd ok refused
  | onward _ moved _ ih => exact ih (holds_of_increment keeps calm moved) ok

/-- On a campaign under way there are not more increments than frames left. -/
theorem exists_secures_of_current (f : Frame) (n : Nat) : ∀ {s : Sweep} {w : World ς}, s.IsReady →
    c.Holds w → s.isStale (c.epoch h.kind) = false → left s ≤ n →
    ∃ m o s' w', Secures h f m s w o s' w' ∧ m ≤ left s := by
  induction n with
  | zero =>
    intro s w ready calm current none
    refine ⟨0, .ok (), s, _, .safe ?_, Nat.zero_le _⟩
    rw [← calm.current hk] at current
    by_contra beyond
    rw [Bool.not_eq_true] at beyond
    obtain ⟨k, walk, more, -⟩ := Sweep.walk_of_unsafe ready.toIsLevel current beyond
    simp only [left, walk] at none
    exact more (List.length_eq_zero_iff.1 (Nat.le_zero.1 none))
  | succ n ih =>
    intro s w ready calm current enough
    cases safe : (s.isSafe h f w).1 with
    | true => exact ⟨0, .ok (), s, _, .safe safe, Nat.zero_le _⟩
    | false =>
      have later := keeps.read calm
      have after := keeps.increment s later
      have looked : s.isStale (w.readEpoch h.kind).1 = false := by rwa [calm.current hk]
      have again : s.isStale ((w.readEpoch h.kind).2.readEpoch h.kind).1 = false := by
        rwa [later.current hk]
      obtain ⟨k, walk, more, -⟩ := Sweep.walk_of_unsafe ready.toIsLevel looked safe
      have some : 0 < left s := by
        simp only [left, walk]
        exact List.length_pos_iff.2 more
      have passes := Sweep.increment_passes ready again walk more
      generalize moved : s.increment h (w.readEpoch h.kind).2 = r at after passes
      obtain ⟨o, s₁, w₁⟩ := r
      by_cases refused : o ≠ .ok ()
      · exact ⟨1, o, s₁, w₁, .refused safe moved refused, some⟩
      · obtain rfl := not_not.1 refused
        obtain ⟨ready', current', fewer⟩ := passes rfl
        rw [later.current hk] at current'
        obtain ⟨m, o, s', w', secures, le⟩ := ih ready' after current' (by omega)
        exact ⟨m + 1, o, s', w', .onward safe moved secures, by omega⟩

/-- Securing a frame comes to an end, with at most one increment more than there are frames to pass.
-/
theorem exists_secures (hv : h.pacing.Valid) (rising : Rising (c.stack.getD []))
    (ready : s.IsReady) (calm : c.Holds w) (f : Frame) :
    ∃ m o s' w', Secures h f m s w o s' w' ∧ m ≤ toPass h s w + 1 := by
  unfold toPass
  cases stale : s.isStale (w.readEpoch h.kind).1 with
  | false =>
    rw [calm.current hk] at stale
    obtain ⟨m, o, s', w', secures, le⟩ :=
      exists_secures_of_current hk keeps f (left s) ready calm stale (Nat.le_refl _)
    exact ⟨m, o, s', w', secures, Nat.le_succ_of_le le⟩
  | true =>
    have later := keeps.read calm
    have after := keeps.increment s later
    have beyond : (s.isSafe h f w).1 = false := Sweep.isSafe_of_isStale stale f
    rw [calm.current hk, ← later.current hk] at stale
    have started := Sweep.start_isReady (h := h) (s := s) none hv
      ((keeps.read later).rising rising)
    rw [← Sweep.increment_of_stale h stale, (keeps.read later).current hk] at started
    generalize moved : s.increment h (w.readEpoch h.kind).2 = r at after started ⊢
    obtain ⟨o, s₁, w₁⟩ := r
    by_cases refused : o ≠ .ok ()
    · exact ⟨1, o, s₁, w₁, .refused beyond moved refused, Nat.le_add_left 1 _⟩
    · obtain rfl := not_not.1 refused
      obtain ⟨ready', current'⟩ := started rfl
      obtain ⟨m, o, s', w', secures, le⟩ :=
        exists_secures_of_current hk keeps f (left s₁) ready' after current' (Nat.le_refl _)
      exact ⟨m + 1, o, s', w', .onward beyond moved secures, Nat.succ_le_succ le⟩

end calm

end Stage

end StackSweep
