import Mathlib.Data.List.Nodup
import StackSweep.Roster
import StackSweep.Proofs.Securing

/-!
# Hooks that are broadcast

A hook of the runtime goes to the sweeps of a thread one after the other. It ends well if every call
does, and stops at the first that does not. What one call establishes, the later ones leave as it
is, for they work on the same thread but on other sweeps. This is so as long as the processors leave
the epochs and the stack alone, and do not call on the sweeps of the roster themselves.
-/

namespace StackSweep

variable {ς ε : Type}

/-- The entry does not hand a frame to this kind. -/
def Event.Omits (k : KindId) : Event → Prop
  | .visit l _ _ _ => l.kind ≠ k
  | _ => True

theorem Event.omits_of_isQuiet {e : Event} (quiet : e.IsQuiet) (k : KindId) : e.Omits k := by
  cases e <;> trivial

/-! ## Turns that keep the lock -/

/-- What a turn has ended with. One that is not the last has not failed. -/
def Turn.outcome : Turn ε → Outcome ε Unit
  | .finished o => o.map fun _ => ()
  | _ => .ok ()

namespace Stage

/-- Until its operation is over, the stage lets nobody else have the lock on purpose. -/
def IsPrompt : Stage → Prop
  | drain _ => False
  | resume _ => False
  | _ => True

/-- What the stage is after. -/
def IsMet (h : Host ς ε) : Stage → Sweep → World ς → Prop
  | start, s, w => s.hasStarted (w.readEpoch h.kind).1 = true
  | secure f, s, w => (s.isSafe h f w).1 = true
  | approach f, s, w => (s.isSafe h f w).1 = true
  | _, _, _ => True

variable {h : Host ς ε} {c : Calm} {stage next : Stage} {s : Sweep} {w : World ς} {a : Answer}

theorem outcome_ended (r : Outcome ε Unit × Sweep × World ς) : (ended r).1.outcome = r.1 := by
  obtain ⟨o, s, w⟩ := r
  cases o <;> rfl

theorem turn_of_isPrompt (prompt : stage.IsPrompt) (h : Host ς ε) (s : Sweep) (w : World ς) :
    (∃ o, (stage.turn h s w).1 = .finished o) ∨
      ∃ next, (stage.turn h s w).1 = .onward next ∧ next.IsPrompt := by
  cases stage with
  | drain _ => cases prompt
  | resume _ => cases prompt
  | secure f =>
    simp only [turn]
    split
    · exact .inl ⟨_, rfl⟩
    · exact .inr ⟨approach f, rfl, trivial⟩
  | approach f =>
    simp only [turn]
    split
    · exact .inr ⟨secure f, rfl, trivial⟩
    · exact .inl ⟨_, rfl⟩
  | _ => exact .inl ⟨_, rfl⟩

theorem answers_turn (prompt : stage.IsPrompt) (h : Host ς ε) (s : Sweep) (w : World ς) :
    h.Answers w.log (stage.turn h s w).1.outcome (stage.turn h s w).2.2.log := by
  have read : h.Answers w.log (.ok ()) (w.readEpoch h.kind).2.log :=
    .thrived ⟨[_], rfl, rfl⟩ nofun
  cases stage with
  | drain _ => cases prompt
  | resume _ => cases prompt
  | increment =>
    rw [turn, outcome_ended]
    exact Sweep.answers_increment s w
  | start =>
    rw [turn, outcome_ended]
    exact Sweep.answers_ensureStarted none s w
  | secure f =>
    simp only [turn]
    split <;> exact read
  | approach f =>
    have moved := Sweep.answers_increment (h := h) s w
    simp only [turn]
    generalize s.increment h w = r at moved ⊢
    obtain ⟨o, s', w'⟩ := r
    cases o <;> exact moved
  | judge f => exact read
  | locate => exact read

theorem hasStarted_of_ensureStarted (hk : c.kinds h.kind) (keeps : h.Respects c.Holds)
    (now : c.Holds w) (ok : (s.ensureStarted h none w).1 = .ok ()) :
    IsMet h start (s.ensureStarted h none w).2.1 (s.ensureStarted h none w).2.2 := by
  have read := keeps.read now
  have later := keeps.ensureStarted none s now
  rw [IsMet, later.current hk, Sweep.hasStarted_eq_not_isStale]
  by_cases stale : s.isStale (w.readEpoch h.kind).1 = true
  · rw [Sweep.ensureStarted_of_stale h none stale] at ok ⊢
    have told := (Sweep.word_of_start_ok ok).2
    rw [read.current hk] at told
    rw [Sweep.isStale, told]
    rfl
  · rw [now.current hk] at stale
    simp only [Sweep.ensureStarted, now.current hk, stale, Bool.false_eq_true, if_false]
    rfl

/-- A stage whose last turn ends well has what it is after. -/
theorem isMet_of_finished (hk : c.kinds h.kind) (keeps : h.Respects c.Holds) (now : c.Holds w)
    (last : (stage.turn h s w).1 = .finished (.ok a)) :
    stage.IsMet h (stage.turn h s w).2.1 (stage.turn h s w).2.2 := by
  cases stage with
  | start =>
    apply hasStarted_of_ensureStarted hk keeps now
    have ok : (turn h start s w).1.outcome = _ := outcome_ended (s.ensureStarted h none w)
    rw [last] at ok
    exact ok.symm
  | secure f =>
    have later := keeps.read now
    simp only [turn] at last ⊢
    by_cases safe : (s.isSafe h f w).1 = true
    · show s.isSafeAt ((w.readEpoch h.kind).2.readEpoch h.kind).1 _ = true
      rw [later.current hk, ← now.current hk]
      exact safe
    · rw [if_neg safe] at last
      cases last
  | approach f =>
    simp only [turn] at last
    generalize s.increment h w = r at last
    obtain ⟨o, s', w'⟩ := r
    cases o <;> cases last
  | _ => trivial

/-- A turn that is not the last one leaves to the next what the stage is after. -/
theorem isMet_of_onward {s' : Sweep} {w' : World ς} (first : (stage.turn h s w).1 = .onward next)
    (met : next.IsMet h s' w') : stage.IsMet h s' w' := by
  cases stage with
  | start => cases first
  | secure f =>
    simp only [turn] at first
    split at first
    · cases first
    · cases first
      exact met
  | approach f =>
    simp only [turn] at first
    split at first
    · cases first
      exact met
    · cases first
  | _ => trivial

end Stage

/-! ## One call of an errand -/

namespace Errand

/-- A stage takes its turns on a sweep, and this is what comes of them. -/
inductive Serves (hosts : Nat → Host ς ε) (i : Nat) :
    Stage → World ς → Outcome ε Answer → World ς → Prop
  | finished {stage w o w'} : takeTurn hosts i stage w = (.finished o, w') →
      Serves hosts i stage w o w'
  | onward {stage next w w₁ o w'} : takeTurn hosts i stage w = (.onward next, w₁) →
      Serves hosts i next w₁ o w' → Serves hosts i stage w o w'

/-- A sweep is called on, and this is what comes of it. -/
inductive Heeds (hosts : Nat → Host ς ε) (i : Nat) (c : Call) (w : World ς) :
    Outcome ε Answer → World ς → Prop
  | settled {w'} : c.openWith (hosts i) (w.sweeps.getD i default).published w = (.settled, w') →
      Heeds hosts i c w (.ok .nothing) w'
  | served {stage w₁ o w'} :
      c.openWith (hosts i) (w.sweeps.getD i default).published w = (.needs stage, w₁) →
      Serves hosts i stage w₁ o w' → Heeds hosts i c w o w'

/-- The sweeps of these members are called on in turn, up to the first call that does not succeed.
-/
inductive Performs (hosts : Nat → Host ς ε) (c : Call) :
    List (KindId × Nat) → World ς → Outcome ε Unit → World ς → Prop
  | done {w} : Performs hosts c [] w (.ok ()) w
  | onward {m ms w a w₁ o w'} : Heeds hosts m.2 c w (.ok a) w₁ → Performs hosts c ms w₁ o w' →
      Performs hosts c (m :: ms) w o w'
  | stopped {m ms w o w'} : Heeds hosts m.2 c w o w' → (o.map fun _ => ()) ≠ .ok () →
      Performs hosts c (m :: ms) w (o.map fun _ => ()) w'

variable {hosts : Nat → Host ς ε} {others : Nat → World ς → World ς} {i : Nat} {stage : Stage}
  {c : Call} {w w' : World ς} {o : Outcome ε (List Answer)}

/-- The turns of a stage are followed by the calls that are left, or have ended the errand. -/
theorem serves_of_run {calls : List (Nat × Call)} {answers : List Answer} (fuel : Nat)
    (prompt : stage.IsPrompt)
    (done : run hosts others fuel ⟨some (i, stage), calls, answers⟩ w = (.finished o, w')) :
    ∃ o₁ w₁, Serves hosts i stage w o₁ w₁ ∧
      ((∃ a n, o₁ = .ok a ∧ n < fuel ∧
          run hosts others n ⟨none, calls, answers ++ [a]⟩ w₁ = (.finished o, w')) ∨
        (o₁.map fun _ => ()) ≠ .ok () ∧ (o.map fun _ => ()) = (o₁.map fun _ => ()) ∧ w' = w₁) := by
  induction fuel generalizing stage w with
  | zero => cases done
  | succ n ih =>
    unfold run at done
    split at done
    · cases done
    · have next := Stage.turn_of_isPrompt prompt (hosts i) (w.sweeps.getD i default) (w.lock i)
      have same : (takeTurn hosts i stage w).1 =
          (stage.turn (hosts i) (w.sweeps.getD i default) (w.lock i)).1 := rfl
      rw [← same] at next
      generalize taken : takeTurn hosts i stage w = r at done next
      obtain ⟨t, w₁⟩ := r
      rcases next with ⟨o₁, rfl⟩ | ⟨next, rfl, prompt'⟩
      · refine ⟨o₁, w₁, .finished taken, ?_⟩
        cases o₁ with
        | ok a => exact .inl ⟨a, n, rfl, Nat.lt_succ_self n, done⟩
        | failed e =>
          cases done
          exact .inr ⟨nofun, rfl, rfl⟩
        | unwound x =>
          cases done
          exact .inr ⟨nofun, rfl, rfl⟩
      · obtain ⟨o₁, w₂, serves, rest⟩ := ih prompt' done
        refine ⟨o₁, w₂, .onward taken serves, rest.imp_left ?_⟩
        rintro ⟨a, m, ok, lt, goes⟩
        exact ⟨a, m, ok, Nat.lt_succ_of_lt lt, goes⟩

end Errand

namespace Call

/-- The call is a hook of the runtime. -/
def IsHook : Call → Prop
  | request => True
  | iterate _ => True
  | beforeUnwind => True
  | afterUnwind => True
  | _ => False

/-- What a hook sees to, on a sweep that was `s` before and is `s'` now. -/
def Ensures (h : Host ς ε) (s s' : Sweep) (w : World ς) : Call → Prop
  | request => s'.hasStarted (w.readEpoch h.kind).1 = true
  | iterate f => if h.onIteration then (s'.isSafe h f w).1 = true else s' = s
  | beforeUnwind =>
    ∀ f, w.thread.topFrame?.bind w.thread.sender? = some f → (s'.isSafe h f w).1 = true
  | afterUnwind => ∀ f, w.thread.topFrame? = some f → (s'.isSafe h f w).1 = true
  | _ => True

variable {h : Host ς ε} {calm : Calm} {c : Call} {s s' : Sweep} {w w' w₁ : World ς} {stage : Stage}

theorem isPrompt_of_openWith (hook : c.IsHook) {published : Published}
    (opened : c.openWith h published w = (.needs stage, w₁)) : stage.IsPrompt := by
  have securing {x : Option Frame} (opened : securing x = .needs stage) : stage.IsPrompt := by
    cases x <;> cases opened
    trivial
  cases c with
  | request =>
    simp only [openWith] at opened
    split at opened <;> cases opened
    trivial
  | iterate f =>
    simp only [openWith] at opened
    split at opened <;> cases opened
    trivial
  | beforeUnwind => exact securing (congrArg Prod.fst opened)
  | afterUnwind => exact securing (congrArg Prod.fst opened)
  | _ => cases hook

/-- Where nothing has to be secured, nothing has to be done. -/
theorem eq_none_of_securing {x : Option Frame} (settled : securing x = .settled) : x = none := by
  cases x with
  | none => rfl
  | some f => cases settled

theorem eq_secure_of_securing {x : Option Frame} (opened : securing x = .needs stage) :
    ∃ f, x = some f ∧ stage = .secure f := by
  cases x with
  | none => cases opened
  | some f =>
    cases opened
    exact ⟨f, rfl, rfl⟩

theorem Ensures.later (hk : calm.kinds h.kind) (now : calm.Holds w) (later : calm.Holds w')
    (ensures : c.Ensures h s s' w) : c.Ensures h s s' w' := by
  have safe {f : Frame} (safe : (s'.isSafe h f w).1 = true) : (s'.isSafe h f w').1 = true := by
    show s'.isSafeAt (w'.readEpoch h.kind).1 (w'.thread.decidingPosition f) = true
    rw [later.current hk, ← now.current hk, now.decidingPosition_eq later]
    exact safe
  cases c with
  | request =>
    unfold Ensures at ensures ⊢
    rwa [later.current hk, ← now.current hk]
  | iterate f =>
    simp only [Ensures] at ensures ⊢
    by_cases on : h.onIteration = true
    · rw [if_pos on] at ensures ⊢
      exact safe ensures
    · rw [if_neg on] at ensures ⊢
      exact ensures
  | beforeUnwind =>
    intro f hf
    refine safe (ensures f ?_)
    rw [← hf, now.topFrame?_eq later]
    exact congrArg _ (funext fun g => (now.sender?_eq later g).symm)
  | afterUnwind =>
    intro f hf
    exact safe (ensures f (hf ▸ (now.topFrame?_eq later).symm))
  | _ => trivial

end Call

namespace Errand

variable {hosts : Nat → Host ς ε} {others : Nat → World ς → World ς} {c : Call} {w w' : World ς}
  {o : Outcome ε (List Answer)}

/-- An errand that is over has called on the sweeps in turn. -/
theorem performs_of_run (hook : c.IsHook) (fuel : Nat) {ms : List (KindId × Nat)}
    {answers : List Answer}
    (done : run hosts others fuel ⟨none, ms.map fun m => (m.2, c), answers⟩ w = (.finished o, w')) :
    Performs hosts c ms w (o.map fun _ => ()) w' := by
  induction fuel using Nat.strongRecOn generalizing ms answers w with
  | _ fuel ih =>
    cases fuel with
    | zero => cases ms <;> cases done
    | succ n =>
      cases ms with
      | nil =>
        cases done
        exact .done
      | cons m ms =>
        rw [List.map_cons] at done
        unfold run at done
        split at done <;> rename_i w₁ opened
        · exact .onward (.settled opened) (ih n (Nat.lt_succ_self n) done)
        · have prompt := Call.isPrompt_of_openWith hook opened
          obtain ⟨o₁, w₂, serves, rest⟩ := serves_of_run n prompt done
          rcases rest with ⟨a, k, rfl, lt, done⟩ | ⟨refused, same, rfl⟩
          · exact .onward (.served opened serves) (ih k (Nat.lt_succ_of_lt lt) done)
          · rw [same]
            exact .stopped (.served opened serves) refused

end Errand

/-! ## What the members have in common -/

/-- A member of a roster has not been worked on: its sweep is as it was, and nothing was handed out
for it. -/
structure Untouched (m : KindId × Nat) (w w' : World ς) : Prop where
  sweep : w'.sweeps[m.2]? = w.sweeps[m.2]?
  log : Adds (Event.Omits m.1) w.log w'.log

namespace Untouched

variable {m : KindId × Nat} {w w₁ w' : World ς}

theorem refl (m : KindId × Nat) (w : World ς) : Untouched m w w := ⟨rfl, .refl w.log⟩

theorem trans (first : Untouched m w w₁) (then' : Untouched m w₁ w') : Untouched m w w' :=
  ⟨then'.sweep.trans first.sweep, first.log.trans then'.log⟩

theorem getD_eq (untouched : Untouched m w w') :
    w'.sweeps.getD m.2 default = w.sweeps.getD m.2 default := by
  rw [List.getD_eq_getElem?_getD, untouched.sweep, List.getD_eq_getElem?_getD]

end Untouched

namespace Roster

/-- Every sweep of the roster has a host of its kind, whose processor leaves the epochs and the
stack alone and does not work on these sweeps. -/
structure IsServed (r : Roster) (hosts : Nat → Host ς ε) (calm : Calm) : Prop where
  kinds : r.kinds.Nodup
  sweeps : r.sweeps.Nodup
  named : ∀ m ∈ r.members, (hosts m.2).kind = m.1
  counted : ∀ m ∈ r.members, calm.kinds m.1
  calm : ∀ m ∈ r.members, ∀ v (w : World ς), calm.Holds w → calm.Holds ((hosts m.2).process v w).2
  spares : ∀ m ∈ r.members, ∀ v (w : World ς), ∀ l ∈ r.members,
    ((hosts m.2).process v w).2.sweeps[l.2]? = w.sweeps[l.2]?

/-- After work on these members: the rest of the roster has not been worked on, and everything is
still in its place. -/
structure WorksOn (r : Roster) (calm : Calm) (ms : List (KindId × Nat)) (w w' : World ς) :
    Prop where
  calm : calm.Holds w'
  present : ∀ m ∈ r.members, ∃ s, w'.sweeps[m.2]? = some s
  rest : ∀ m ∈ r.members, m ∉ ms → Untouched m w w'

variable {r : Roster} {hosts : Nat → Host ς ε} {calm : Calm} {m : KindId × Nat}
  {ms ms' : List (KindId × Nat)} {w w₀ w₁ w' : World ς}

namespace WorksOn

theorem refl (ms : List (KindId × Nat)) (now : calm.Holds w)
    (present : ∀ m ∈ r.members, ∃ s, w.sweeps[m.2]? = some s) : r.WorksOn calm ms w w :=
  ⟨now, present, fun m _ _ => .refl m w⟩

theorem trans (first : r.WorksOn calm ms w w₁) (then' : r.WorksOn calm ms' w₁ w') :
    r.WorksOn calm (ms ++ ms') w w' := by
  refine ⟨then'.calm, then'.present, ?_⟩
  intro m hm other
  rw [List.mem_append, not_or] at other
  exact (first.rest m hm other.1).trans (then'.rest m hm other.2)

/-- Whatever keeps the calm, does not touch the sweeps and hands out nothing may follow. -/
theorem quiet (works : r.WorksOn calm ms w₀ w) (later : calm.Holds w') (same : w'.sweeps = w.sweeps)
    (adds : ∀ k, Adds (Event.Omits k) w.log w'.log) : r.WorksOn calm ms w₀ w' := by
  refine ⟨later, ?_, ?_⟩
  · rw [same]
    exact works.present
  · intro m hm other
    exact (works.rest m hm other).trans ⟨by rw [same], adds m.1⟩

theorem lock (works : r.WorksOn calm ms w₀ w) (i : Nat) : r.WorksOn calm ms w₀ (w.lock i) :=
  works.quiet (works.calm.lock i) rfl fun _ => .refl w.log

/-- The sweep that is given back is the one that is there afterwards. -/
theorem sweep_unlock (works : r.WorksOn calm ms w₀ w) (hm : m ∈ r.members) (s : Sweep) :
    (w.unlock m.2 s).sweeps[m.2]? = some s := by
  obtain ⟨s', there⟩ := works.present m hm
  exact List.getElem?_set_self (List.getElem?_eq_some_iff.1 there).1

end WorksOn

namespace IsServed

/-- The members of a roster can be told apart by their sweeps. -/
theorem eq_of_sweep (served : r.IsServed hosts calm) {l : KindId × Nat} (hl : l ∈ r.members)
    (hm : m ∈ r.members) (same : l.2 = m.2) : l = m :=
  List.inj_on_of_nodup_map served.sweeps hl hm same

theorem eq_of_kind (served : r.IsServed hosts calm) {l : KindId × Nat} (hl : l ∈ r.members)
    (hm : m ∈ r.members) (same : l.1 = m.1) : l = m :=
  List.inj_on_of_nodup_map served.kinds hl hm same

theorem respects_calm (served : r.IsServed hosts calm) (hm : m ∈ r.members) :
    calm.kinds (hosts m.2).kind ∧ (hosts m.2).Respects (ς := ς) calm.Holds := by
  have hk : calm.kinds (hosts m.2).kind := by
    rw [served.named m hm]
    exact served.counted m hm
  exact ⟨hk, Calm.respects hk (served.calm m hm)⟩

/-- Everything that an operation on one member does to the world is work on that member. -/
theorem respects (served : r.IsServed hosts calm) (hm : m ∈ r.members) (w₀ : World ς) :
    (hosts m.2).Respects (r.WorksOn calm [m] w₀) := by
  obtain ⟨-, keeps⟩ := served.respects_calm hm
  have aside {log log' : List Event} (seen : Visited log [] log') (k : KindId) :
      Adds (Event.Omits k) log log' :=
    .of_visited (fun e aside => e.omits_of_isQuiet (Event.isQuiet_of_isAside aside) k)
      (fun some => absurd rfl some) seen
  refine ⟨?_, ?_, ?_, ?_, ?_, ?_⟩
  · intro w e quiet works
    exact works.quiet (keeps.record quiet works.calm) rfl fun k =>
      (Adds.refl w.log).cons (e.omits_of_isQuiet quiet k)
  · intro w works
    exact works.quiet (keeps.read works.calm) rfl fun k => (Adds.refl w.log).cons trivial
  · intro w options works
    exact works.quiet (keeps.walk options works.calm) rfl fun k => (Adds.refl w.log).cons trivial
  · intro w works
    exact works.quiet (keeps.enter works.calm) rfl (aside (Bracket.visited_enter w))
  · intro w b works
    exact works.quiet (keeps.leave b works.calm) rfl (aside (Bracket.visited_leave b w))
  · intro w v works
    have same (l : KindId × Nat) (hl : l ∈ r.members) :
        ((hosts m.2).visit v w).2.sweeps[l.2]? = w.sweeps[l.2]? :=
      served.spares m hm v { w with log := [] } l hl
    refine ⟨keeps.visit v works.calm, ?_, ?_⟩
    · intro l hl
      rw [same l hl]
      exact works.present l hl
    · intro l hl other
      refine (works.rest l hl other).trans ⟨same l hl, (Adds.refl w.log).cons ?_⟩
      show (hosts m.2).kind ≠ l.1
      rw [served.named m hm]
      exact fun eq => other (List.mem_singleton.2 (served.eq_of_kind hl hm eq.symm))

/-- To give back the sweep of a member is work on that member. -/
theorem unlock (served : r.IsServed hosts calm) (hm : m ∈ r.members)
    (works : r.WorksOn calm [m] w₀ w) (s : Sweep) : r.WorksOn calm [m] w₀ (w.unlock m.2 s) := by
  refine ⟨works.calm.unlock m.2 s, ?_, ?_⟩
  · intro l hl
    by_cases same : m.2 = l.2
    · exact ⟨s, same ▸ works.sweep_unlock hm s⟩
    · exact (works.present l hl).imp fun _ there => (List.getElem?_set_ne same).trans there
  · intro l hl other
    have apart : m.2 ≠ l.2 := fun same =>
      other (List.mem_singleton.2 (served.eq_of_sweep hl hm same.symm))
    have untouched := works.rest l hl other
    exact ⟨(List.getElem?_set_ne apart).trans untouched.sweep, untouched.log⟩

end IsServed

end Roster

/-! ## What comes of a hook -/

namespace Errand

variable {r : Roster} {hosts : Nat → Host ς ε} {calm : Calm} {i : Nat} {m : KindId × Nat}
  {ms : List (KindId × Nat)} {stage : Stage} {c : Call} {w w₀ w' : World ς} {t : Turn ε}
  {a : Answer}

/-- A turn takes the lock and gives it back. -/
theorem turn_of_takeTurn (taken : takeTurn hosts i stage w = (t, w')) :
    ∃ s w₁, stage.turn (hosts i) (w.sweeps.getD i default) (w.lock i) = (t, s, w₁) ∧
      w' = w₁.unlock i s := by
  unfold takeTurn at taken
  generalize stage.turn (hosts i) (w.sweeps.getD i default) (w.lock i) = r at taken
  obtain ⟨t', s, w₁⟩ := r
  cases taken
  exact ⟨s, w₁, rfl, rfl⟩

theorem answers_takeTurn (prompt : stage.IsPrompt) (taken : takeTurn hosts i stage w = (t, w')) :
    (hosts i).Answers w.log t.outcome w'.log := by
  obtain ⟨s, w₁, turned, rfl⟩ := turn_of_takeTurn taken
  have answers := Stage.answers_turn prompt (hosts i) (w.sweeps.getD i default) (w.lock i)
  rw [turned] at answers
  exact answers

theorem Serves.answers {o : Outcome ε Answer} (serves : Serves hosts i stage w o w')
    (prompt : stage.IsPrompt) : (hosts i).Answers w.log (o.map fun _ => ()) w'.log := by
  induction serves with
  | finished taken => exact answers_takeTurn prompt taken
  | @onward stage next w w₁ _ _ taken _ ih =>
    have next := Stage.turn_of_isPrompt prompt (hosts i) (w.sweeps.getD i default) (w.lock i)
    obtain ⟨s, w₂, turned, -⟩ := turn_of_takeTurn taken
    rw [turned] at next
    rcases next with ⟨_, ⟨⟩⟩ | ⟨_, ⟨⟩, prompt'⟩
    exact (answers_takeTurn prompt taken).trans (ih prompt')

section turns

variable (served : r.IsServed hosts calm) (hm : m ∈ r.members)

include served hm

/-- A turn for a member is work on that member. If it ends well its stage has what it is after. -/
theorem takeTurn_spec (works : r.WorksOn calm [m] w₀ w)
    (taken : takeTurn hosts m.2 stage w = (t, w')) : r.WorksOn calm [m] w₀ w' ∧
      (t = .finished (.ok a) → stage.IsMet (hosts m.2) (w'.sweeps.getD m.2 default) w') := by
  obtain ⟨s, w₁, turned, rfl⟩ := turn_of_takeTurn taken
  obtain ⟨hk, keeps⟩ := served.respects_calm hm
  have locked := works.lock m.2
  have worked := (served.respects hm w₀).turn (w.sweeps.getD m.2 default) stage locked
  have met : (stage.turn (hosts m.2) (w.sweeps.getD m.2 default) (w.lock m.2)).1 =
      .finished (.ok a) → stage.IsMet (hosts m.2) _ _ :=
    Stage.isMet_of_finished hk keeps locked.calm
  rw [turned] at worked met
  refine ⟨served.unlock hm worked s, fun ended => ?_⟩
  have found : (w₁.unlock m.2 s).sweeps.getD m.2 default = s := by
    rw [List.getD_eq_getElem?_getD, worked.sweep_unlock hm s, Option.getD_some]
  have now := met ended
  rw [found]
  -- a stage is met or not whoever has the lock
  cases stage <;> exact now

theorem Serves.spec {o : Outcome ε Answer} (serves : Serves hosts m.2 stage w o w')
    (works : r.WorksOn calm [m] w₀ w) : r.WorksOn calm [m] w₀ w' ∧
      (o = .ok a → stage.IsMet (hosts m.2) (w'.sweeps.getD m.2 default) w') := by
  induction serves with
  | @finished stage w o w' taken =>
    refine (takeTurn_spec (a := a) served hm works taken).imp_right ?_
    rintro met rfl
    exact met rfl
  | @onward stage next w w₁ _ _ taken _ ih =>
    obtain ⟨works', -⟩ := takeTurn_spec (a := a) served hm works taken
    obtain ⟨works'', met⟩ := ih works'
    obtain ⟨s, w₂, turned, -⟩ := turn_of_takeTurn taken
    exact ⟨works'', fun ok => Stage.isMet_of_onward (congrArg Prod.fst turned) (met ok)⟩

end turns

end Errand

namespace Call

variable {h : Host ς ε} {calm : Calm} {c : Call} {s s' : Sweep} {w w₁ w' : World ς} {stage : Stage}

theorem hands_openWith (c : Call) (h : Host ς ε) (published : Published) (w : World ς) :
    Hands w.log [] (c.openWith h published w).2.log := by
  cases c with
  | request => exact ⟨[_], rfl, rfl⟩
  | _ => exact .refl w.log

/-- A hook that is settled without the lock finds everything as it should be. -/
theorem ensures_of_settled (hk : calm.kinds h.kind) (keeps : h.Respects calm.Holds)
    (now : calm.Holds w) (settled : c.openWith h s.published w = (.settled, w')) :
    c.Ensures h s s w' := by
  cases c with
  | request =>
    simp only [openWith] at settled
    split at settled
    · rename_i of
      cases settled
      have later := keeps.read now
      rw [Ensures, later.current hk, Sweep.hasStarted_eq_not_isStale, Sweep.isStale,
        ← now.current hk, of]
      rfl
    · cases settled
  | iterate f =>
    simp only [openWith] at settled
    by_cases on : h.onIteration = true
    · rw [if_pos on] at settled
      cases settled
    · rw [Ensures, if_neg on]
  | beforeUnwind =>
    intro f hf
    have none := eq_none_of_securing (congrArg Prod.fst settled)
    obtain rfl : w = w' := congrArg Prod.snd settled
    cases none.symm.trans hf
  | afterUnwind =>
    intro f hf
    have none := eq_none_of_securing (congrArg Prod.fst settled)
    obtain rfl : w = w' := congrArg Prod.snd settled
    cases none.symm.trans hf
  | _ => trivial

/-- What the stage of a hook is after is what the hook sees to. -/
theorem ensures_of_isMet (now : calm.Holds w) (later : calm.Holds w')
    (opened : c.openWith h s.published w = (.needs stage, w₁)) (met : stage.IsMet h s' w') :
    c.Ensures h s s' w' := by
  cases c with
  | request =>
    simp only [openWith] at opened
    split at opened
    · cases opened
    · cases opened
      exact met
  | iterate f =>
    simp only [openWith] at opened
    by_cases on : h.onIteration = true
    · rw [if_pos on] at opened
      cases opened
      rw [Ensures, if_pos on]
      exact met
    · rw [if_neg on] at opened
      cases opened
  | beforeUnwind =>
    obtain ⟨g, hg, rfl⟩ := eq_secure_of_securing (congrArg Prod.fst opened)
    intro f hf
    rw [now.topFrame?_eq later, funext (now.sender?_eq later), hg] at hf
    cases hf
    exact met
  | afterUnwind =>
    obtain ⟨g, hg, rfl⟩ := eq_secure_of_securing (congrArg Prod.fst opened)
    intro f hf
    rw [now.topFrame?_eq later, hg] at hf
    cases hf
    exact met
  | _ => trivial

end Call

namespace Errand

variable {r : Roster} {hosts : Nat → Host ς ε} {others : Nat → World ς → World ς} {calm : Calm}
  {i : Nat} {m : KindId × Nat} {ms : List (KindId × Nat)} {c : Call} {w w' : World ς} {a : Answer}

theorem Heeds.answers {o : Outcome ε Answer} (heeds : Heeds hosts i c w o w') (hook : c.IsHook) :
    (hosts i).Answers w.log (o.map fun _ => ()) w'.log := by
  have opened := c.hands_openWith (hosts i) (w.sweeps.getD i default).published w
  cases heeds with
  | settled settled =>
    rw [settled] at opened
    exact .thrived opened nofun
  | served needs serves =>
    rw [needs] at opened
    exact (serves.answers (Call.isPrompt_of_openWith hook needs)).after opened nofun

theorem Heeds.spec {o : Outcome ε Answer} (heeds : Heeds hosts m.2 c w o w')
    (served : r.IsServed hosts calm) (hm : m ∈ r.members) (now : calm.Holds w)
    (present : ∀ m ∈ r.members, ∃ s, w.sweeps[m.2]? = some s) :
    r.WorksOn calm [m] w w' ∧ (o = .ok a → c.Ensures (hosts m.2) (w.sweeps.getD m.2 default)
      (w'.sweeps.getD m.2 default) w') := by
  obtain ⟨hk, keeps⟩ := served.respects_calm hm
  have works : r.WorksOn calm [m] w w := .refl [m] now present
  have opened := (served.respects hm w).openWith c (w.sweeps.getD m.2 default).published works
  cases heeds with
  | settled settled =>
    rw [settled] at opened
    refine ⟨opened, fun _ => ?_⟩
    have same : w'.sweeps = w.sweeps := by
      cases c <;> simp only [Call.openWith, Prod.mk.injEq] at settled <;> rw [← settled.2]
      rfl
    rw [same]
    exact Call.ensures_of_settled hk keeps now settled
  | served needs serves =>
    rw [needs] at opened
    obtain ⟨works', met⟩ := serves.spec (a := a) served hm opened
    exact ⟨works', fun ok => Call.ensures_of_isMet now works'.calm needs (met ok)⟩

/-- What a hook has achieved for these members when it is over. Either all is well, or there is one
for which it has failed: then all is well for those that come before, and those that come after have
not been worked on. -/
inductive Achieves (hosts : Nat → Host ς ε) (c : Call) (w : World ς) (ms : List (KindId × Nat)) :
    Outcome ε Unit → World ς → Prop
  | all {vs w'} : Hands w.log vs w'.log → (∀ x ∈ vs, x.2 = .processed) →
      (∀ m ∈ ms,
        c.Ensures (hosts m.2) (w.sweeps.getD m.2 default) (w'.sweeps.getD m.2 default) w') →
      Achieves hosts c w ms (.ok ()) w'
  | part {before m after o w'} : ms = before ++ m :: after → o ≠ .ok () →
      (∀ l ∈ before,
        c.Ensures (hosts l.2) (w.sweeps.getD l.2 default) (w'.sweeps.getD l.2 default) w') →
      (hosts m.2).Answers w.log o w'.log → (∀ l ∈ after, Untouched l w w') →
      Achieves hosts c w ms o w'

/-- A call that ends well comes before those that follow: what these achieve counts from the start,
if it has not touched their sweeps, and what it has achieved itself has stayed. -/
theorem Achieves.cons {w₁ : World ς} {o : Outcome ε Unit} {vs : List (Visit × Verdict)}
    (hands : Hands w.log vs w₁.log)
    (processed : ∀ x ∈ vs, x.2 = .processed) (first : ∀ l ∈ ms, Untouched l w w₁)
    (kept : c.Ensures (hosts m.2) (w.sweeps.getD m.2 default) (w'.sweeps.getD m.2 default) w')
    (achieves : Achieves hosts c w₁ ms o w') : Achieves hosts c w (m :: ms) o w' := by
  cases achieves with
  | all hands' processed' ensures =>
    refine .all (hands.trans hands') ?_ (List.forall_mem_cons.2 ⟨kept, ?_⟩)
    · exact fun x hx => (List.mem_append.1 hx).elim (processed' x) (processed x)
    · intro l hl
      rw [← (first l hl).getD_eq]
      exact ensures l hl
  | @part before m' after _ _ split refused ensures answers untouched =>
    have earlier {l : KindId × Nat} (hl : l ∈ before) : l ∈ ms :=
      split ▸ List.mem_append_left _ hl
    have later {l : KindId × Nat} (hl : l ∈ after) : l ∈ ms :=
      split ▸ List.mem_append_right _ (List.mem_cons_of_mem _ hl)
    have split' : m :: ms = (m :: before) ++ m' :: after := congrArg (m :: ·) split
    refine .part split' refused (List.forall_mem_cons.2 ⟨kept, ?_⟩)
      (answers.after hands processed) ?_
    · intro l hl
      rw [← (first l (earlier hl)).getD_eq]
      exact ensures l hl
    · exact fun l hl => (first l (later hl)).trans (untouched l hl)

/-- The calls on some members are work on these, and achieve what the hook is for. -/
theorem Performs.achieves {o : Outcome ε Unit} (performs : Performs hosts c ms w o w')
    (served : r.IsServed hosts calm) (hook : c.IsHook) (hms : ∀ m ∈ ms, m ∈ r.members)
    (distinct : ms.Nodup) (now : calm.Holds w)
    (present : ∀ m ∈ r.members, ∃ s, w.sweeps[m.2]? = some s) :
    r.WorksOn calm ms w w' ∧ Achieves hosts c w ms o w' := by
  induction performs with
  | done => exact ⟨.refl [] now present, .all (.refl _) nofun nofun⟩
  | @stopped m ms w o w' heeds refused =>
    have hm := hms m List.mem_cons_self
    obtain ⟨fresh, -⟩ := List.nodup_cons.1 distinct
    obtain ⟨works, -⟩ := heeds.spec (a := .nothing) served hm now present
    have rest (l : KindId × Nat) (hl : l ∈ r.members) (other : l ≠ m) : Untouched l w w' :=
      works.rest l hl fun same => other (List.mem_singleton.1 same)
    refine ⟨⟨works.calm, works.present, ?_⟩, ?_⟩
    · intro l hl other
      exact rest l hl fun same => other (same ▸ List.mem_cons_self)
    · refine .part (List.nil_append (m :: ms)).symm refused nofun (heeds.answers hook) ?_
      intro l hl
      exact rest l (hms l (List.mem_cons_of_mem _ hl)) fun same => fresh (same ▸ hl)
  | @onward m ms w a w₁ o w' heeds _ ih =>
    have hm := hms m List.mem_cons_self
    obtain ⟨fresh, distinct'⟩ := List.nodup_cons.1 distinct
    obtain ⟨works, ensures⟩ := heeds.spec (a := a) served hm now present
    obtain ⟨works', achieves⟩ :=
      ih (fun l hl => hms l (List.mem_cons_of_mem _ hl)) distinct' works.calm works.present
    have first (l : KindId × Nat) (hl : l ∈ ms) : Untouched l w w₁ := by
      refine works.rest l (hms l (List.mem_cons_of_mem _ hl)) fun same => fresh ?_
      rwa [← List.mem_singleton.1 same]
    -- what was established for the first member stays
    have kept : c.Ensures (hosts m.2) (w.sweeps.getD m.2 default) (w'.sweeps.getD m.2 default)
        w' := by
      obtain ⟨hk, -⟩ := served.respects_calm hm
      rw [(works'.rest m hm fresh).getD_eq]
      exact (ensures rfl).later hk works.calm works'.calm
    refine ⟨by simpa using works.trans works', ?_⟩
    cases heeds.answers hook with
    | thrived hands processed => exact achieves.cons hands processed first kept

end Errand

namespace Roster

variable {r : Roster} {hosts : Nat → Host ς ε} {others : Nat → World ς → World ς} {calm : Calm}
  {c : Call} {w w' : World ς} {o : Outcome ε (List Answer)}

/-- A hook that ends well has achieved what it is for on every sweep of the thread at once. One that
fails does so as the processor of some member has failed, on the last frame that was handed out. It
has achieved what it is for on the sweeps before that one, and has done nothing with those after it.
-/
theorem achieves_of_broadcast (served : r.IsServed hosts calm) (now : calm.Holds w)
    (present : ∀ m ∈ r.members, ∃ s, w.sweeps[m.2]? = some s) (hook : c.IsHook) (fuel : Nat)
    (done : (r.broadcast c).run hosts others fuel w = (.finished o, w')) :
    Errand.Achieves hosts c w r.members (o.map fun _ => ()) w' := by
  have calls : r.broadcast c = ⟨none, r.members.map fun m => (m.2, c), []⟩ := by
    simp [broadcast, Errand.broadcast, Errand.ofCalls, sweeps, Function.comp_def]
  rw [calls] at done
  have performs := Errand.performs_of_run hook fuel done
  exact (performs.achieves served hook (fun _ hm => hm) (.of_map _ served.kinds) now present).2

end Roster

/-! ## Three kinds, the second of which fails -/

/-- The processor of the second kind refuses a frame. -/
def triadHosts (i : Nat) : Host Bool String :=
  { Site.moody with
    kind := ⟨UInt8.ofNat i⟩
    process := fun v w => (if i = 1 ∧ v.frame.id = 1 then .failed "refused" else .ok (), w) }

def triad : Roster := ⟨[(⟨0⟩, 0), (⟨1⟩, 1), (⟨2⟩, 2)]⟩

/-- A thread with three new sweeps, for all of which the epoch has moved on. -/
def triadWorld : World Bool :=
  { World.ofThread ⟨1, some Site.fourFrames, true, 0, false, 0, 0, none, false⟩ (.cells [1, 1, 1])
      false with
    sweeps := [.settled 0, .settled 0, .settled 0] }

def triadCalm : Calm where
  kinds _ := True
  epoch k := [1, 1, 1].getD k.toNat 0
  stack := some Site.fourFrames
  walkable := true

theorem isServed_triad : triad.IsServed triadHosts triadCalm where
  kinds := by decide
  sweeps := by decide
  named := by decide
  counted _ _ := trivial
  calm _ _ _ _ now := now
  spares _ _ _ _ _ _ := rfl

def triadRun : Errand.Progress String × World Bool :=
  (triad.broadcast .afterUnwind).run triadHosts (fun _ w => w) 20 triadWorld

/-- The hook fails with the second kind. The frame that runs is safe for the first, and for the
third nothing has happened. -/
theorem achieves_of_triad :
    triadRun.1 = .finished (.failed "refused") ∧
    Errand.Achieves triadHosts .afterUnwind triadWorld triad.members (.failed "refused")
      triadRun.2 ∧
    ((triadRun.2.sweeps.getD 0 default).isSafe (triadHosts 0) ⟨0, ⟨10⟩, true, false⟩
      triadRun.2).1 = true ∧
    (triadRun.2.sweeps.getD 1 default).hasStarted 1 = false ∧
    triadRun.2.sweeps[2]? = some (.settled 0) := by
  have failed : triadRun.1 = .finished (.failed "refused") := rfl
  have now : triadCalm.Holds triadWorld := by
    refine ⟨?_, rfl, rfl⟩
    apply Authority.Abides.of_steady
    · exact fun _ _ => rfl
    · exact fun _ _ => rfl
  have present : ∀ m ∈ triad.members, ∃ s, triadWorld.sweeps[m.2]? = some s := by
    simp [triad, triadWorld]
  refine ⟨failed, ?_, by decide +kernel, by decide +kernel, by decide +kernel⟩
  exact Roster.achieves_of_broadcast (c := .afterUnwind) isServed_triad now present trivial 20
    (Prod.ext failed rfl)

end StackSweep
