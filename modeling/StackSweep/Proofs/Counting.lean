import Mathlib.Data.List.Nodup
import StackSweep.Proofs.Backing

/-!
# Counting campaigns

A counter tells campaigns apart by how often a kind has been advanced, up to multiples of `2 ^ 31`.
It may be used by many at once. Each advance is one access, so that none is lost; to advance every
kind takes as many accesses as there are kinds, and others may come in between.

A published word is packed with the epoch that was read when the campaign was started. It calls that
campaign the current one for as long as the kind has not been advanced, and once more whenever the
advances since are a multiple of `2 ^ 31`.
-/

namespace StackSweep

variable {ς ε : Type}

/-! ## Epochs and numbers of advances -/

namespace Epoch

/-- The epoch after so many advances. -/
def ofCount (n : Nat) : Epoch := .ofNat (n % 2147483648)

theorem toNat_ofCount (n : Nat) : (ofCount n).toNat = n % 2147483648 := by
  rw [ofCount, UInt32.toNat_ofNat']
  omega

theorem ofCount_eq_iff {m n : Nat} : ofCount m = ofCount n ↔ m % 2147483648 = n % 2147483648 := by
  rw [← UInt32.toNat_inj, toNat_ofCount, toNat_ofCount]

@[simp] theorem significant_ofCount (n : Nat) : (ofCount n).significant = ofCount n := by
  rw [← UInt32.toNat_inj, ProgressWord.toNat_significant, toNat_ofCount]
  omega

@[simp] theorem next_ofCount (n : Nat) : (ofCount n).next = ofCount (n + 1) := by
  rw [← UInt32.toNat_inj, next, ProgressWord.toNat_significant, UInt32.toNat_add, toNat_ofCount,
    toNat_ofCount]
  simp only [UInt32.toNat_one]
  omega

/-- Two counts give the same epoch if one is ahead of the other by a multiple of `2 ^ 31`. -/
theorem ofCount_add_eq_iff {m n : Nat} : ofCount (m + n) = ofCount n ↔ 2147483648 ∣ m := by
  rw [ofCount_eq_iff]
  omega

end Epoch

theorem KindId.eq_of_toNat_eq {k l : KindId} (same : k.toNat = l.toNat) : k = l := by
  cases k
  cases l
  exact congrArg KindId.mk (UInt8.toNat_inj.1 same)

namespace EpochCounter

variable {c : EpochCounter} {k : KindId}

theorem advance_of_slot {e : Epoch} (slot : c.epochs[k.toNat]? = some e) :
    c.advance k = (.ok e.next, ⟨c.epochs.set k.toNat e.next⟩) := by
  simp only [advance, slot]

theorem getElem?_advance_of_ne {l : KindId} (other : k ≠ l) :
    (c.advance k).2.epochs[l.toNat]? = c.epochs[l.toNat]? := by
  unfold advance
  split
  · exact List.getElem?_set_ne fun same => other (KindId.eq_of_toNat_eq same)
  · rfl

/-- An advance answers the epoch that it leaves behind. -/
theorem fst_advance_eq_current (c : EpochCounter) (k : KindId) :
    (c.advance k).1 = (c.advance k).2.current k := by
  unfold advance
  cases slot : c.epochs[k.toNat]? with
  | none => simp [current, slot]
  | some e =>
    have inside := (List.getElem?_eq_some_iff.1 slot).1
    simp [current, inside]

theorem mem_kinds (few : c.epochs.length ≤ 256) : k ∈ c.kinds ↔ k.toNat < c.epochs.length := by
  simp only [kinds, List.mem_map, List.mem_range]
  constructor
  · rintro ⟨i, lt, rfl⟩
    rw [KindId.toNat, UInt8.toNat_ofNat']
    omega
  · intro lt
    refine ⟨k.toNat, lt, KindId.eq_of_toNat_eq ?_⟩
    rw [KindId.toNat, UInt8.toNat_ofNat']
    omega

theorem nodup_kinds (few : c.epochs.length ≤ 256) : c.kinds.Nodup := by
  unfold kinds
  rw [List.nodup_iff_pairwise_ne, List.pairwise_map]
  refine List.nodup_range.imp_of_mem ?_
  intro i j hi hj apart same
  rw [List.mem_range] at hi hj
  have := congrArg KindId.toNat same
  simp only [KindId.toNat, UInt8.toNat_ofNat'] at this
  omega

end EpochCounter

/-! ## A counter in use -/

/-- What somebody has asked a counter for, and what it has answered. -/
inductive Access
  | advanced (thread : Nat) (kind : KindId) (answer : Except Fault Epoch)
  | read (reader : Nat) (kind : KindId) (answer : Except Fault Epoch)

namespace Access

def kind : Access → KindId
  | advanced _ k _ => k
  | read _ k _ => k

def answer : Access → Except Fault Epoch
  | advanced _ _ a => a
  | read _ _ a => a

def isAdvanceOf (k : KindId) : Access → Bool
  | advanced _ l _ => l == k
  | read .. => false

end Access

/-- How often a kind has been advanced. -/
def advances (k : KindId) (as : List Access) : Nat := as.countP (Access.isAdvanceOf k)

/-- The epochs of a kind that a reader was answered, latest first. -/
def answersTo (i : Nat) (k : KindId) : List Access → List Epoch
  | [] => []
  | .read j l (.ok e) :: earlier =>
    if j = i ∧ l = k then e :: answersTo i k earlier else answersTo i k earlier
  | _ :: earlier => answersTo i k earlier

structure Usage where
  counter : EpochCounter
  /-- The kinds that each thread still has to advance. -/
  due : Nat → List KindId
  /-- What was asked so far, latest first. -/
  accesses : List Access

namespace Usage

def ofKinds (n : Nat) : Usage := ⟨.ofKinds n, fun _ => [], []⟩

/-- A thread is going to advance these kinds, one after the other. -/
def begin (t : Nat) (ks : List KindId) (u : Usage) : Usage :=
  { u with due := fun q => if q = t then ks else u.due q }

/-- A thread makes its next advance. -/
def perform (t : Nat) (u : Usage) : Usage :=
  match u.due t with
  | [] => u
  | k :: ks =>
    let (answer, counter) := u.counter.advance k
    { u.begin t ks with counter := counter, accesses := .advanced t k answer :: u.accesses }

/-- A reader asks for the epoch of a kind. -/
def consult (i : Nat) (k : KindId) (u : Usage) : Usage :=
  { u with accesses := .read i k (u.counter.current k) :: u.accesses }

/-- What can happen next. -/
inductive Step (u : Usage) : Usage → Prop
  | advance (t : Nat) (k : KindId) : u.due t = [] → Step u (u.begin t [k])
  | advanceAll (t : Nat) : u.due t = [] → Step u (u.begin t u.counter.kinds)
  | perform (t : Nat) : Step u (u.perform t)
  | consult (i : Nat) (k : KindId) : Step u (u.consult i k)

/-- What can become of a new counter for `n` kinds. -/
def Reachable (n : UInt8) (u : Usage) : Prop := Relation.ReflTransGen Step (ofKinds n.toNat) u

/-- The counter holds the numbers of advances, and every access was answered accordingly. -/
structure Tallies (n : Nat) (u : Usage) : Prop where
  size : u.counter.epochs.length = n
  slot : ∀ k : KindId, k.toNat < n →
    u.counter.epochs[k.toNat]? = some (.ofCount (advances k u.accesses))
  answer : ∀ x before, x :: before <:+ u.accesses → x.kind.toNat < n →
    x.answer = .ok (.ofCount (advances x.kind (x :: before)))

variable {n : Nat} {u u' : Usage} {k : KindId} {t : Nat}

theorem perform_of_due {ks : List KindId} (due : u.due t = k :: ks) :
    u.perform t =
      { u.begin t ks with
        counter := (u.counter.advance k).2
        accesses := .advanced t k (u.counter.advance k).1 :: u.accesses } := by
  simp only [perform, due]

theorem tallies_ofKinds (n : Nat) : (ofKinds n).Tallies n where
  size := List.length_replicate
  slot k lt := by
    show (List.replicate n (0 : Epoch))[k.toNat]? = some (.ofCount 0)
    rw [List.getElem?_replicate, if_pos lt]
    rfl
  answer := by
    intro x before suffix
    cases List.suffix_nil.1 suffix

/-- Whatever is asked next, if it was answered as it should be. -/
theorem Tallies.ask (tallies : u.Tallies n) {x : Access} {c : EpochCounter}
    {due : Nat → List KindId} (size : c.epochs.length = n)
    (slot : ∀ k : KindId, k.toNat < n →
      c.epochs[k.toNat]? = some (.ofCount (advances k (x :: u.accesses))))
    (answer : x.kind.toNat < n → x.answer = .ok (.ofCount (advances x.kind (x :: u.accesses)))) :
    Tallies n ⟨c, due, x :: u.accesses⟩ := by
  refine ⟨size, slot, ?_⟩
  intro y before suffix
  rcases List.suffix_cons_iff.1 suffix with same | suffix
  · cases same
    exact answer
  · exact tallies.answer y before suffix

theorem Tallies.current (tallies : u.Tallies n) (lt : k.toNat < n) :
    u.counter.current k = .ok (.ofCount (advances k u.accesses)) := by
  simp only [EpochCounter.current, tallies.slot k lt]

theorem Tallies.consult (tallies : u.Tallies n) (i : Nat) (k : KindId) :
    (u.consult i k).Tallies n :=
  tallies.ask tallies.size tallies.slot fun lt => tallies.current lt

theorem Tallies.perform (tallies : u.Tallies n) (t : Nat) : (u.perform t).Tallies n := by
  cases due : u.due t with
  | nil =>
    simp only [Usage.perform, due]
    exact tallies
  | cons k ks =>
    rw [perform_of_due due]
    have size : (u.counter.advance k).2.epochs.length = n := by
      rw [EpochCounter.length_advance, tallies.size]
    have count (l : KindId) (a : Except Fault Epoch) :
        advances l (.advanced t k a :: u.accesses) =
          advances l u.accesses + if k = l then 1 else 0 := by
      simp [advances, List.countP_cons, Access.isAdvanceOf]
    refine tallies.ask size ?_ ?_
    · intro l lt
      rw [count]
      by_cases same : k = l
      · subst same
        have slot := tallies.slot k lt
        rw [EpochCounter.advance_of_slot slot, if_pos rfl, Epoch.next_ofCount]
        exact List.getElem?_set_self (List.getElem?_eq_some_iff.1 slot).1
      · rw [EpochCounter.getElem?_advance_of_ne same, if_neg same]
        exact tallies.slot l lt
    · intro lt
      show (u.counter.advance k).1 = .ok (.ofCount (advances k _))
      rw [count, if_pos rfl, EpochCounter.advance_of_slot (tallies.slot k lt), Epoch.next_ofCount]

theorem Reachable.tallies {n : UInt8} (used : Reachable n u) : u.Tallies n.toNat := by
  induction used with
  | refl => exact tallies_ofKinds n.toNat
  | tail _ st ih =>
    cases st with
    | advance t k _ => exact ⟨ih.size, ih.slot, ih.answer⟩
    | advanceAll t _ => exact ⟨ih.size, ih.slot, ih.answer⟩
    | perform t => exact ih.perform t
    | consult i k => exact ih.consult i k

/-- A thread that nobody else gets in the way of makes all its advances. -/
theorem exists_performed (t : Nat) (ks : List KindId) : ∀ {u : Usage}, u.due t = ks →
    ∃ u', Relation.ReflTransGen Step u u' ∧
      u'.counter = ks.foldl (fun c k => (c.advance k).2) u.counter ∧
      ∀ k, advances k u'.accesses = advances k u.accesses + ks.count k := by
  induction ks with
  | nil => exact fun _ => ⟨_, .refl, rfl, fun _ => rfl⟩
  | cons k ks ih =>
    intro u due
    have performed := perform_of_due due
    obtain ⟨u', run, counter, counts⟩ := ih (u := u.perform t) (by rw [performed]; exact if_pos rfl)
    refine ⟨u', .head (.perform t) run, ?_, ?_⟩
    · rw [counter, performed]
      rfl
    · intro l
      rw [counts, performed]
      by_cases same : k = l
      · simp only [advances, List.countP_cons, Access.isAdvanceOf, List.count_cons, same, BEq.rfl,
          if_true]
        omega
      · simp only [advances, List.countP_cons, Access.isAdvanceOf, List.count_cons, beq_iff_eq,
          same, if_false, Nat.add_zero]

/-- What a counter can be relied on for. -/
structure Counts (n : Nat) (u : Usage) : Prop where
  /-- It holds the number of advances. -/
  current : ∀ k : KindId, k.toNat < n →
    ∃ e, u.counter.current k = .ok e ∧ e.toNat = advances k u.accesses % 2147483648
  /-- So did every answer at its time. An advance has counted itself. -/
  answered : ∀ x before, x :: before <:+ u.accesses → x.kind.toNat < n →
    ∃ e, x.answer = .ok e ∧ e.toNat = advances x.kind (x :: before) % 2147483648
  /-- An advance answers what it installs. -/
  installs : ∀ k, (u.counter.advance k).1 = (u.counter.advance k).2.current k
  /-- It moves no other kind. -/
  others : ∀ k l, k ≠ l → (u.counter.advance k).2.current l = u.counter.current l
  /-- Advances of a kind answer the same if they are a multiple of `2 ^ 31` apart, not otherwise. -/
  apart : ∀ {k x y between before}, x :: (between ++ y :: before) <:+ u.accesses → k.toNat < n →
    x.isAdvanceOf k = true → y.isAdvanceOf k = true →
    (x.answer = y.answer ↔ 2147483648 ∣ advances k between + 1)
  /-- To advance all kinds is to advance each of them once. -/
  all : ∀ t, u.due t = [] → ∃ u', Relation.ReflTransGen Step u u' ∧
    u'.counter = u.counter.advanceAll ∧
    ∀ k : KindId, k.toNat < n → advances k u'.accesses = advances k u.accesses + 1

theorem kind_of_isAdvanceOf {x : Access} (advance : x.isAdvanceOf k = true) : x.kind = k := by
  cases x with
  | advanced t l a => exact eq_of_beq advance
  | read => cases advance

theorem Tallies.counts (tallies : u.Tallies n) (few : n ≤ 256) : u.Counts n := by
  refine ⟨?_, ?_, ?_, ?_, ?_, ?_⟩
  · exact fun k lt => ⟨_, tallies.current lt, Epoch.toNat_ofCount _⟩
  · exact fun x before suffix lt => ⟨_, tallies.answer x before suffix lt, Epoch.toNat_ofCount _⟩
  · exact u.counter.fst_advance_eq_current
  · intro k l other
    exact EpochCounter.current_advance_of_ne fun same => other (KindId.eq_of_toNat_eq same)
  · intro k x y between before suffix lt hx hy
    have later := tallies.answer x _ suffix
    have earlier := tallies.answer y before
      (.trans ⟨x :: between, List.append_assoc [x] _ _⟩ suffix)
    rw [kind_of_isAdvanceOf hx] at later
    rw [kind_of_isAdvanceOf hy] at earlier
    rw [later lt, earlier lt, Except.ok.injEq, ← Epoch.ofCount_add_eq_iff]
    have split : advances k (x :: (between ++ y :: before)) =
        advances k between + 1 + advances k (y :: before) := by
      simp only [advances, List.countP_cons, List.countP_append, hx, if_true]
      omega
    rw [split]
  · intro t idle
    have size := tallies.size
    obtain ⟨u', run, counter, counts⟩ := exists_performed t u.counter.kinds
      (u := u.begin t u.counter.kinds) (if_pos rfl)
    refine ⟨u', .head (.advanceAll t idle) run, counter, ?_⟩
    intro k lt
    rw [counts, List.count_eq_one_of_mem (EpochCounter.nodup_kinds (by omega))
      ((EpochCounter.mem_kinds (by omega)).2 (by omega))]
    rfl

end Usage

/-! ## The epochs of published words -/

/-- The epoch was read, after these readings, when the sweep was made or when a campaign was
started. -/
inductive Opened (birth : Epoch) (log : List Event) : Epoch → List Epoch → Prop
  | made : Opened birth log birth []
  | started {e l k earlier} : .started l e :: .epochRead k e :: earlier <:+ log →
      Opened birth log e (readings earlier)

/-- Every word was stored for an epoch that had been opened. -/
def AlwaysOpened (birth : Epoch) : List Event → Prop :=
  Throughout fun ev earlier => ∀ l w, ev = .wordStored l w →
    ∃ e done rs, w = .pack e done ∧ Opened birth earlier e rs

section log

variable {birth e : Epoch} {rs : List Epoch} {k : KindId} {log log' : List Event}

theorem Opened.grow (opened : Opened birth log e rs) (suffix : log <:+ log') :
    Opened birth log' e rs := by
  cases opened with
  | made => exact .made
  | started inside => exact .started (inside.trans suffix)

/-- The readings up to the one that opened an epoch are the first of all readings. -/
theorem Opened.readings_suffix (opened : Opened birth log e rs)
    (made : [.epochRead k birth] <:+ log) : e :: rs <:+ readings log := by
  cases opened with
  | made => exact StackSweep.readings_suffix made
  | started inside => exact StackSweep.readings_suffix inside

theorem AlwaysOpened.exists_word (always : AlwaysOpened birth log) :
    ∃ e done rs, wordIn birth log = .pack e done ∧ Opened birth log e rs := by
  induction log with
  | nil => exact ⟨birth, true, [], rfl, .made⟩
  | cons ev log ih =>
    obtain ⟨now, before⟩ := always
    have grown {w : ProgressWord}
        (found : ∃ e done rs, w = .pack e done ∧ Opened birth log e rs) :
        ∃ e done rs, w = .pack e done ∧ Opened birth (ev :: log) e rs := by
      obtain ⟨e, done, rs, word, opened⟩ := found
      exact ⟨e, done, rs, word, opened.grow (List.suffix_cons ev log)⟩
    cases ev with
    | wordStored l w => exact grown (now l w rfl)
    | _ => exact grown (ih before)

end log

namespace Sweep

/-- The sweep publishes words for the epoch of its walk, which was opened, as were those of all
words before. -/
structure Speaks (birth : Epoch) (s : Sweep) (log : List Event) : Prop where
  epoch : ∃ rs, Opened birth log s.epoch rs
  stored : AlwaysOpened birth log

variable {birth : Epoch} {s s' : Sweep} {log log' : List Event}

theorem Speaks.adds (speaks : s.Speaks birth log) (adds : Adds Event.IsWordless log log')
    (same : s'.epoch = s.epoch) : s'.Speaks birth log' := by
  obtain ⟨⟨rs, opened⟩, stored⟩ := speaks
  refine ⟨⟨rs, ?_⟩, stored.adds adds ?_⟩
  · rw [same]
    obtain ⟨es, rfl, -⟩ := adds
    exact opened.grow (List.suffix_append es log)
  · rintro e earlier wordless l w rfl
    cases wordless

theorem Speaks.cons (speaks : s.Speaks birth log) {e : Event} (wordless : e.IsWordless) :
    s.Speaks birth (e :: log) :=
  speaks.adds ((Adds.refl log).cons wordless) rfl

theorem Speaks.passes {k k' : Walk} {unwound : Prop} (speaks : s.Speaks birth log)
    (passes : k.Passes log unwound k' log') (same : s'.epoch = s.epoch) : s'.Speaks birth log' := by
  obtain ⟨vs, seen, -⟩ := passes
  exact speaks.adds (adds_isWordless_of_visited seen) same

theorem Speaks.store (speaks : s.Speaks birth log) (l : Label) (boundary : Position) (done : Bool)
    (same : s'.epoch = s.epoch) :
    s'.Speaks birth (.wordStored l (.pack s.epoch done) :: .boundaryStored l boundary :: log) := by
  obtain ⟨⟨rs, opened⟩, stored⟩ := speaks
  refine ⟨⟨rs, ?_⟩, ?_, nofun, stored⟩
  · rw [same]
    exact opened.grow ⟨[_, _], rfl⟩
  · rintro _ _ ⟨⟩
    exact ⟨s.epoch, done, rs, rfl, opened.grow (List.suffix_cons _ _)⟩

theorem Publishes.speaks (published : s.Publishes log s' log') (speaks : s.Speaks birth log) :
    s'.Speaks birth log' := by
  cases published with
  | boundary l => exact speaks.store l _ false rfl
  | ending l =>
    have stored : ({ s with published := .settled s.epoch } : Sweep).Speaks birth _ :=
      speaks.store l .none true rfl
    split
    · exact stored
    · exact stored.cons trivial
  | stuck => exact speaks

theorem Starts.speaks {begun : Bool} (starts : s.Starts log begun s' log')
    (speaks : s.Speaks birth log) : s'.Speaks birth log' := by
  have started (i : KindId) (e : Epoch) (l : Label) :
      s.Speaks birth (.started l e :: .epochRead i e :: log) :=
    (speaks.cons (e := .epochRead i e) trivial).cons trivial
  have opened (i : KindId) (e : Epoch) (l : Label) (k : Option Walk) :
      ({ s with walk := k, epoch := e } : Sweep).Speaks birth
        (.started l e :: .epochRead i e :: log) :=
    ⟨⟨_, .started (List.suffix_refl _)⟩, (started i e l).stored⟩
  cases starts with
  | idle i e l published => exact published.speaks (opened i e l none)
  | dropped i e l tid o fs passes asides =>
    have walked := (started i e l).cons (e := .walk tid o fs) trivial
    exact (walked.passes passes rfl).adds (adds_isWordless_of_visited asides) rfl
  | @installed k _ _ _ i e l l' tid o fs passes _ published =>
    have walked := (opened i e l (some k)).cons (e := .walk tid o fs) trivial
    exact published.speaks ((walked.passes passes rfl).cons trivial)

theorem Moves.speaks (moves : s.Moves log s' log') (speaks : s.Speaks birth log) :
    s'.Speaks birth log' := by
  cases moves with
  | rest => exact speaks
  | settle _ published => exact published.speaks speaks
  | unwound _ passes => exact speaks.passes passes rfl
  | passed _ passes published asides =>
    exact (published.speaks (speaks.passes passes rfl)).adds (adds_isWordless_of_visited asides) rfl

theorem Turns.speaks (turned : s.Turns log s' log') (speaks : s.Speaks birth log) :
    s'.Speaks birth log' := by
  cases turned with
  | looked i e => exact speaks.cons trivial
  | resumed moves => exact moves.speaks speaks
  | current i e _ asides moves =>
    have read := speaks.cons (e := .epochRead i e) trivial
    exact moves.speaks (read.adds (adds_isWordless_of_visited asides) rfl)
  | renewed i e _ starts asides moves =>
    have started := starts.speaks (speaks.cons (e := .epochRead i e) trivial)
    exact moves.speaks (started.adds (adds_isWordless_of_visited asides) rfl)

end Sweep

namespace Site

variable {h : Host ς ε} {birth : Epoch} {site : Site ς}

theorem Reachable.speaks (r : Reachable h birth site) :
    site.sweep.Speaks birth site.world.log := by
  refine r.preserved (P := Sweep.Speaks birth) ⟨⟨[], .made⟩, nofun, trivial⟩ ?_
  exact fun speaks turned => turned.speaks speaks

/-- The first thing that happens to a sweep is that it reads the epoch. -/
theorem Reachable.birth_suffix (r : Reachable h birth site) :
    [.epochRead h.kind birth] <:+ site.world.log := by
  refine r.preserved (P := fun _ log => [.epochRead h.kind birth] <:+ log) (List.suffix_refl _) ?_
  exact fun first turned => first.trans turned.suffix

end Site

/-! ## Words and counters -/

theorem ProgressWord.phase_pack_ofCount (m n : Nat) (done : Bool) :
    (pack (.ofCount n) done).phase (.ofCount (m + n)) =
      if 2147483648 ∣ m then (if done then .done else .inProgress) else .stale := by
  have of : (pack (.ofCount n) done).isOf (.ofCount (m + n)) = true ↔ 2147483648 ∣ m := by
    rw [isOf_pack, Epoch.significant_ofCount, Epoch.significant_ofCount, eq_comm,
      Epoch.ofCount_add_eq_iff]
  unfold phase
  by_cases same : 2147483648 ∣ m
  · rw [of.2 same, if_pos same, isDone_pack]
    rfl
  · rw [Bool.eq_false_iff.2 (mt of.1 same), if_neg same]
    rfl

namespace Usage

variable {n : Nat} {u : Usage} {i : Nat} {k : KindId} {birth : Epoch} {moment : List Event}

/-- What a reader was answered, it was answered by an access. -/
theorem exists_read {e : Epoch} {rs : List Epoch} {as : List Access}
    (answered : e :: rs <:+ answersTo i k as) :
    ∃ since before, as = since ++ .read i k (.ok e) :: before ∧ answersTo i k before = rs := by
  induction as with
  | nil => cases List.suffix_nil.1 answered
  | cons a as ih =>
    have older (answered : e :: rs <:+ answersTo i k as) :
        ∃ since before, a :: as = since ++ .read i k (.ok e) :: before ∧
          answersTo i k before = rs := by
      obtain ⟨since, before, rfl, earlier⟩ := ih answered
      exact ⟨a :: since, before, rfl, earlier⟩
    cases a with
    | advanced t l answer => exact older answered
    | read j l answer =>
      cases answer with
      | error x => exact older answered
      | ok d =>
        rw [answersTo] at answered
        split at answered
        · rename_i own
          obtain ⟨rfl, rfl⟩ := own
          rcases List.suffix_cons_iff.1 answered with same | answered
          · cases same
            exact ⟨[], as, rfl, rfl⟩
          · exact older answered
        · exact older answered

/-- The word in memory was packed with an epoch that the counter had answered when the sweep was
made or when a campaign was started. Now it says of the campaign what the advances since then tell.
-/
def Dates (u : Usage) (i : Nat) (k : KindId) (birth : Epoch) (moment : List Event) : Prop :=
  ∃ e done since before now,
    u.accesses = since ++ .read i k (.ok e) :: before ∧
    Opened birth moment e (answersTo i k before) ∧
    wordIn birth moment = .pack e done ∧
    u.counter.current k = .ok now ∧
    (wordIn birth moment).phase now =
      if 2147483648 ∣ advances k since then (if done then .done else .inProgress) else .stale

theorem Tallies.dates (tallies : u.Tallies n) (lt : k.toNat < n)
    (always : AlwaysOpened birth moment) (made : [.epochRead k birth] <:+ moment)
    (linked : readings moment <:+ answersTo i k u.accesses) : u.Dates i k birth moment := by
  obtain ⟨e, done, rs, word, opened⟩ := always.exists_word
  obtain ⟨since, before, split, rfl⟩ := exists_read ((opened.readings_suffix made).trans linked)
  have answer : Except.ok e = Except.ok (.ofCount (advances k before)) :=
    tallies.answer (.read i k (.ok e)) before (split ▸ List.suffix_append _ _) lt
  obtain rfl : e = .ofCount (advances k before) := Except.ok.inj answer
  refine ⟨_, done, since, before, _, split, opened, word, tallies.current lt, ?_⟩
  have total : advances k u.accesses = advances k since + advances k before := by
    rw [split, advances, List.countP_append]
    rfl
  rw [word, total]
  exact ProgressWord.phase_pack_ofCount _ _ done

/-- Campaigns are counted right, whoever advances the counter when. A sweep that has read what the
counter has answered it, however these accesses came in between others, has in memory a word that is
stale now unless the kind has been advanced by a multiple of `2 ^ 31` since its epoch was read. -/
theorem counts_of_reachable {n : UInt8} (used : Reachable n u) :
    u.Counts n.toNat ∧
    ∀ {h : Host ς ε} {birth : Epoch} {site : Site ς} {i : Nat} {moment : List Event},
      h.kind.toNat < n.toNat → Site.Reachable h birth site →
      moment ≠ [] → moment <:+ site.world.log →
      readings moment <:+ answersTo i h.kind u.accesses →
      u.Dates i h.kind birth moment ∧
        site.sweep.published.word = wordIn birth site.world.log := by
  refine ⟨used.tallies.counts (by have := n.toNat_lt; omega), ?_⟩
  intro h birth site i moment lt r some suffix linked
  have made : [.epochRead h.kind birth] <:+ moment :=
    List.suffix_of_suffix_length_le r.birth_suffix suffix (List.length_pos_iff.2 some)
  have always : AlwaysOpened birth moment := r.speaks.stored.of_suffix suffix
  exact ⟨used.tallies.dates lt always made linked, r.earned.word.symm⟩

/-! ## Two threads that advance at the same time -/

/-- A sweep of kind 0 has been made. -/
def consulted : Usage := (ofKinds 2).consult 0 ⟨0⟩

/-- One thread advances all kinds. After the first of them the sweep starts a campaign, and another
thread advances kind 0 once more. -/
def interleaved : Usage :=
  let advancing := (consulted.begin 1 consulted.counter.kinds).perform 1
  let started := ((advancing.begin 2 [⟨0⟩]).consult 0 ⟨0⟩).consult 0 ⟨0⟩
  (started.perform 2).perform 1

theorem reachable_interleaved : Reachable 2 interleaved := by
  have made : Reachable 2 consulted := .single (.consult 0 ⟨0⟩)
  have advancing := (made.tail (.advanceAll 1 rfl)).tail (.perform 1)
  have contended := advancing.tail (.advance 2 ⟨0⟩ rfl)
  have started := (contended.tail (.consult 0 ⟨0⟩)).tail (.consult 0 ⟨0⟩)
  exact (started.tail (.perform 2)).tail (.perform 1)

/-- The campaign that has begun is not the current one any more. -/
theorem counts_of_interleaved :
    interleaved.Counts 2 ∧ interleaved.Dates 0 ⟨0⟩ 0 Site.begun.world.log ∧
    interleaved.counter.epochs = [2, 1] ∧
    Site.begun.sweep.phase 1 = .inProgress ∧ Site.begun.sweep.phase 2 = .stale := by
  obtain ⟨counts, dates⟩ := counts_of_reachable (ς := Bool) (ε := String) reachable_interleaved
  have some : Site.begun.world.log ≠ [] := by
    intro none
    have first := Site.reachable_begun.birth_suffix
    rw [none] at first
    cases List.suffix_nil.1 first
  have linked : readings Site.begun.world.log <:+ answersTo 0 ⟨0⟩ interleaved.accesses := by
    decide +kernel
  have spoken := dates (h := Site.moody) (by decide) Site.reachable_begun some (List.suffix_refl _)
    linked
  exact ⟨counts, spoken.1, by decide +kernel, by decide +kernel, by decide +kernel⟩

end Usage

end StackSweep
