import StackSweep.Proofs.Scopes

/-!
# Brackets that overlap

The sweeps of a thread have a lock each. So two parties may process the thread's frames for two
kinds at the same time, and their brackets are open together and close in any order. A bracket puts
back what it found. Whoever opens one first finds the thread's own error and suppression, and
whoever opens one meanwhile finds neither. If the first bracket closes while another is open, the
thread has its own back too early: unless the next one to open takes them over, the next one to
close throws the error away and leaves handles forbidden.
-/

namespace StackSweep

variable {ς : Type}

/-- What a party does to the scopes of the thread. -/
inductive Toggle
  /-- A bracket opens. -/
  | enter
  /-- Of the brackets that are open the one closes that so many others have been opened after. -/
  | leave (i : Nat)
deriving DecidableEq, Repr

/-- The brackets that are open, latest first, and the world around them. -/
structure Overlap (ς : Type) where
  opened : List Bracket
  world : World ς

namespace Overlap

def act (x : Overlap ς) : Toggle → Overlap ς
  | .enter => ⟨(Bracket.enter x.world).1 :: x.opened, (Bracket.enter x.world).2⟩
  | .leave i =>
    match x.opened[i]? with
    | some b => ⟨x.opened.eraseIdx i, b.leave x.world⟩
    | none => x

/-- Nothing else happens to the thread in between. -/
def run (ts : List Toggle) (w : World ς) : Overlap ς := ts.foldl act ⟨[], w⟩

end Overlap

/-- Each bracket closes once, after it has been opened, when at first `n` are open. -/
def IsOrder : Nat → List Toggle → Prop
  | n, [] => n = 0
  | n, .enter :: ts => IsOrder (n + 1) ts
  | n, .leave i :: ts => i < n ∧ IsOrder (n - 1) ts

instance decidableIsOrder : ∀ n ts, Decidable (IsOrder n ts)
  | n, [] => inferInstanceAs (Decidable (n = 0))
  | n, .enter :: ts => decidableIsOrder (n + 1) ts
  | n, .leave i :: ts =>
    @instDecidableAnd _ _ (inferInstanceAs (Decidable (i < n))) (decidableIsOrder (n - 1) ts)

/-- The bracket that closes is always the one that was opened last. -/
def IsNested (ts : List Toggle) : Prop := ∀ i, .leave i ∈ ts → i = 0

/-! ## Who has what the thread had -/

/-- Who has the error and the suppression that the thread had at first. -/
inductive Holder
  | thread
  /-- The open bracket that so many others have been opened after. -/
  | bracket (i : Nat)
  | nobody
deriving DecidableEq, Repr

namespace Holder

def after : Holder → Toggle → Holder
  | .thread, .enter => .bracket 0
  | .thread, .leave _ => .nobody
  | .bracket i, .enter => .bracket (i + 1)
  | .bracket i, .leave j =>
    if j = i then .thread else if j < i then .bracket (i - 1) else .bracket i
  | .nobody, _ => .nobody

/-- Who has them in the end. -/
def afterAll (ts : List Toggle) : Holder := ts.foldl after .thread

/-- What an open bracket remembers. -/
def memory (t : Scopes) (holder : Holder) (i : Nat) : Bracket :=
  if holder = .bracket i then ⟨t.suppressed, t.pending⟩ else ⟨true, none⟩

/-- What the thread shows while so many brackets are open. -/
def scopes (t : Scopes) (holder : Holder) (n : Nat) : Scopes where
  suppressed := if holder = .thread then t.suppressed else true
  handles := t.handles + n
  resources := t.resources + n
  pending := if holder = .thread then t.pending else none

/-- The errors that have been thrown away. -/
def discarded (t : Scopes) (holder : Holder) : List String :=
  if holder = .nobody then t.pending.toList else []

end Holder

/-- The errors that were thrown away with a warning, latest first. -/
def strays : List Event → List String :=
  List.filterMap fun
    | .strayError e => some e
    | _ => none

theorem strays_enter (w : World ς) : strays (Bracket.enter w).2.log = strays w.log := rfl

theorem strays_leave (b : Bracket) (w : World ς) :
    strays (b.leave w).log = w.thread.pending.toList ++ strays w.log := by
  rw [Bracket.log_leave]
  obtain ⟨suppressed, preserved⟩ := b
  cases preserved <;> cases w.thread.pending <;> rfl

/-- What there is to say of the thread and of the open brackets. -/
structure Holder.Describes (holder : Holder) (t : Scopes) (log : List Event) (x : Overlap ς) :
    Prop where
  scopes : x.world.thread.scopes = holder.scopes t x.opened.length
  opened : ∀ i, i < x.opened.length → x.opened[i]? = some (holder.memory t i)
  held : ∀ i, holder = .bracket i → i < x.opened.length
  strays : strays x.world.log = holder.discarded t ++ StackSweep.strays log

section describes

variable {holder : Holder} {t : Scopes} {log : List Event} {x : Overlap ς}

/-- A bracket that opens takes over whatever the thread has. -/
theorem Holder.Describes.enter (d : holder.Describes t log x) :
    (holder.after .enter).Describes t log (x.act .enter) := by
  obtain ⟨scopes, opened, held, strays⟩ := d
  simp only [Thread.scopes, Holder.scopes, Scopes.mk.injEq] at scopes
  obtain ⟨suppressed, handles, resources, pending⟩ := scopes
  refine ⟨?_, ?_, ?_, ?_⟩
  · simp only [Overlap.act, Bracket.thread_enter, Thread.scopes, Holder.scopes, List.length_cons,
      handles, resources]
    cases holder <;> simp [Holder.after] <;> omega
  · intro i hi
    cases i with
    | zero =>
      simp only [Overlap.act, Bracket.fst_enter, suppressed, pending]
      cases holder <;> simp [Holder.after, Holder.memory]
    | succ i =>
      have same : (holder.after .enter).memory t (i + 1) = holder.memory t i := by
        cases holder <;> simp [Holder.after, Holder.memory]
      rw [same, ← opened i (Nat.lt_of_succ_lt_succ hi)]
      rfl
  · intro i hi
    cases holder with
    | thread => cases hi; exact Nat.succ_pos _
    | bracket k => cases hi; exact Nat.succ_lt_succ (held k rfl)
    | nobody => cases hi
  · simp only [Overlap.act, strays_enter, strays]
    cases holder <;> rfl

theorem Holder.bracket_after_leave (i j : Nat) : (Holder.bracket i).after (.leave j) =
    if j = i then .thread else if j < i then .bracket (i - 1) else .bracket i := rfl

/-- The brackets that stay open keep what they have, and those that were opened earlier move up. -/
theorem Holder.after_leave_iff {j k : Nat} : holder.after (.leave j) = .bracket k ↔
    holder = .bracket (if k < j then k else k + 1) := by
  cases holder with
  | thread => simp [Holder.after]
  | nobody => simp [Holder.after]
  | bracket i =>
    rw [bracket_after_leave, Holder.bracket.injEq]
    by_cases here : j = i
    · simp only [here, if_true, reduceCtorEq, false_iff]
      split <;> omega
    · by_cases inner : j < i
      · simp only [here, inner, if_true, if_false, Holder.bracket.injEq]
        split <;> omega
      · simp only [here, inner, if_false, Holder.bracket.injEq]
        split <;> omega

/-- A bracket that closes gives the thread what it has, and the thread's own, if it is there, is
lost. -/
theorem Holder.Describes.leave (d : holder.Describes t log x) {j : Nat} (hj : j < x.opened.length) :
    (holder.after (.leave j)).Describes t log (x.act (.leave j)) ∧
      (x.act (.leave j)).opened.length = x.opened.length - 1 := by
  obtain ⟨scopes, opened, held, strays⟩ := d
  simp only [Thread.scopes, Holder.scopes, Scopes.mk.injEq] at scopes
  obtain ⟨suppressed, handles, resources, pending⟩ := scopes
  have act : x.act (.leave j) = ⟨x.opened.eraseIdx j, (holder.memory t j).leave x.world⟩ := by
    simp only [Overlap.act, opened j hj]
  have length := List.length_eraseIdx_of_lt hj
  rw [act]
  refine ⟨⟨?_, ?_, ?_, ?_⟩, length⟩
  · simp only [Bracket.thread_leave, Thread.scopes, Holder.scopes, length, handles, resources]
    cases holder with
    | thread => simp [Holder.after, Holder.memory]; omega
    | nobody => simp [Holder.after, Holder.memory]; omega
    | bracket i =>
      rw [bracket_after_leave]
      unfold Holder.memory
      by_cases here : j = i
      · simp [here]; omega
      · by_cases inner : j < i
        · simp [here, inner, Ne.symm here]; omega
        · simp [here, inner, Ne.symm here]; omega
  · intro k hk
    simp only [length] at hk
    rw [List.getElem?_eraseIdx]
    simp only [Holder.memory, after_leave_iff]
    split
    · exact opened k (by omega)
    · exact opened (k + 1) (by omega)
  · intro k hk
    have := held _ (after_leave_iff.1 hk)
    simp only [length]
    split at this <;> omega
  · rw [strays_leave, strays]
    simp only [pending]
    cases holder with
    | thread => simp [Holder.after, Holder.discarded]
    | nobody => simp [Holder.after, Holder.discarded]
    | bracket i =>
      rw [bracket_after_leave]
      unfold Holder.discarded
      by_cases here : j = i
      · simp [here]
      · by_cases inner : j < i
        · simp [here, inner]
        · simp [here, inner]

/-- In the end all brackets are closed, and what the log and the thread show tells who has what the
thread had. -/
theorem Holder.Describes.run (ts : List Toggle) : ∀ {holder : Holder} {x : Overlap ς},
    holder.Describes t log x → IsOrder x.opened.length ts →
      (ts.foldl Holder.after holder).Describes t log (ts.foldl Overlap.act x) ∧
        (ts.foldl Overlap.act x).opened = [] := by
  induction ts with
  | nil => exact fun d order => ⟨d, List.length_eq_zero_iff.1 order⟩
  | cons toggle ts ih =>
    intro holder x d order
    cases toggle with
    | enter => exact ih d.enter order
    | leave j =>
      obtain ⟨hj, rest⟩ := order
      obtain ⟨d', length⟩ := d.leave hj
      rw [← length] at rest
      exact ih d' rest

end describes

/-- Who has what the thread had while brackets are nested and `n` are open. -/
def Holder.outermost : Nat → Holder
  | 0 => .thread
  | n + 1 => .bracket n

theorem Holder.after_outermost_of_nested (ts : List Toggle) :
    ∀ n, IsOrder n ts → IsNested ts → ts.foldl Holder.after (outermost n) = .thread := by
  induction ts with
  | nil =>
    rintro n rfl -
    rfl
  | cons toggle ts ih =>
    intro n order nested
    have rest : IsNested ts := fun i hi => nested i (List.mem_cons_of_mem _ hi)
    cases toggle with
    | enter =>
      rw [← ih (n + 1) order rest]
      cases n <;> rfl
    | leave i =>
      cases nested i List.mem_cons_self
      obtain ⟨some, order'⟩ := order
      rw [← ih (n - 1) order' rest]
      match n, some with
      | 1, _ => rfl
      | n + 2, _ => rfl

/-- Whatever the number and the order of the brackets, the scopes that have been entered are left.
What becomes of the error and the suppression depends on whether the thread is given its own back
while other brackets are open, and if so on what happens next. If a bracket opens, it takes them
over. If one closes, the error is thrown away with a warning, and handles outside a scope remain
forbidden. None of this happens to brackets that are nested. -/
theorem overlap_of_order (w : World ς) (ts : List Toggle) (order : IsOrder 0 ts) :
    (Overlap.run ts w).opened = [] ∧
    (Holder.afterAll ts = .thread ∧
        (Overlap.run ts w).world.thread.scopes = w.thread.scopes ∧
        strays (Overlap.run ts w).world.log = strays w.log ∨
      Holder.afterAll ts = .nobody ∧
        (Overlap.run ts w).world.thread.scopes =
          { w.thread.scopes with suppressed := true, pending := none } ∧
        strays (Overlap.run ts w).world.log = w.thread.pending.toList ++ strays w.log) ∧
    (IsNested ts → Holder.afterAll ts = .thread) := by
  have start : Holder.thread.Describes w.thread.scopes w.log ⟨[], w⟩ := by
    refine ⟨?_, nofun, nofun, rfl⟩
    simp [Holder.scopes, Thread.scopes]
  obtain ⟨⟨scopes, -, held, thrown⟩, closed⟩ := start.run ts order
  rw [closed] at scopes held
  refine ⟨closed, ?_, Holder.after_outermost_of_nested ts 0 order⟩
  show ts.foldl Holder.after .thread = .thread ∧ _ ∨ ts.foldl Holder.after .thread = .nobody ∧ _
  generalize ts.foldl Holder.after .thread = holder at scopes held thrown
  cases holder with
  | thread =>
    refine .inl ⟨rfl, scopes.trans ?_, thrown⟩
    simp [Holder.scopes, Thread.scopes]
  | bracket i => exact absurd (held i rfl) (Nat.not_lt_zero i)
  | nobody =>
    refine .inr ⟨rfl, scopes.trans ?_, thrown⟩
    simp [Holder.scopes, Thread.scopes]

/-- A third bracket takes over what the first has put back. -/
example : Holder.afterAll [.enter, .enter, .leave 1, .enter, .leave 1, .leave 0] = .thread := by
  decide

end StackSweep
