import Mathlib.Data.Nat.Digits.Defs
import StackSweep.Text.Blank
import StackSweep.Text.Numeral

/-!
# Which texts are numbers

The grammar of numbers, without reference to how they are read: blanks at the ends, a plus sign if
the writer likes, and digits. Reading accepts exactly the numbers of this grammar that are in range,
with the value that their digits have. A text that it refuses is refused for the first thing that is
wrong: a number that exceeds the limit at some digit is reported as too large, whatever comes after
that digit.
-/

namespace StackSweep

namespace Text

variable {s t ds rest : List Char} {v n limit : Nat} {c : Char} {cause : NumeralError}

/-! ## Blanks at the ends -/

/-- `s` with blanks at its ends, and `t` without. -/
structure IsTrimmed (s t : List Char) : Prop where
  around : ∃ before after, s = before ++ t ++ after ∧ ∀ c ∈ before ++ after, isBlank c = true
  first : ∀ c ∈ t.head?, isBlank c = false
  last : ∀ c ∈ t.getLast?, isBlank c = false

theorem isBlank_of_mem_takeWhile (h : c ∈ s.takeWhile isBlank) : isBlank c = true :=
  List.all_eq_true.1 List.all_takeWhile c h

theorem isBlank_head?_dropWhile (s : List Char) :
    ∀ c ∈ (s.dropWhile isBlank).head?, isBlank c = false := by
  intro c hc
  have first := List.head?_dropWhile_not isBlank s
  rwa [Option.mem_def.1 hc] at first

theorem isTrimmed_trim (s : List Char) : IsTrimmed s (trim s) := by
  have front : s.takeWhile isBlank ++ s.dropWhile isBlank = s := List.takeWhile_append_dropWhile
  have back : trim s ++ ((s.dropWhile isBlank).reverse.takeWhile isBlank).reverse =
      s.dropWhile isBlank := by
    rw [trim, ← List.reverse_append, List.takeWhile_append_dropWhile, List.reverse_reverse]
  refine ⟨⟨s.takeWhile isBlank, ((s.dropWhile isBlank).reverse.takeWhile isBlank).reverse, ?_, ?_⟩,
    ?_, ?_⟩
  · rw [List.append_assoc, back, front]
  · intro c hc
    rcases List.mem_append.1 hc with before | after
    · exact isBlank_of_mem_takeWhile before
    · exact isBlank_of_mem_takeWhile (List.mem_reverse.1 after)
  · -- What is left has its first character from the text without the blanks in front.
    intro c hc
    have head : c ∈ (s.dropWhile isBlank).head? := by
      rw [← back, List.head?_append, Option.mem_def.1 hc]
      rfl
    exact isBlank_head?_dropWhile s c head
  · intro c hc
    rw [trim, List.getLast?_reverse] at hc
    exact isBlank_head?_dropWhile _ c hc

theorem trim_append_left {before : List Char} (blank : ∀ c ∈ before, isBlank c = true)
    (s : List Char) : trim (before ++ s) = trim s := by
  unfold trim
  rw [List.dropWhile_append_of_pos blank]

theorem trim_append_right {after : List Char} (blank : ∀ c ∈ after, isBlank c = true)
    (s : List Char) : trim (s ++ after) = trim s := by
  unfold trim
  rw [List.dropWhile_append]
  split
  · rename_i empty
    rw [List.isEmpty_iff.1 empty]
    have none : (after ++ []).dropWhile isBlank = [] := List.dropWhile_append_of_pos blank
    rw [List.append_nil] at none
    rw [none]
  · rw [List.reverse_append, List.dropWhile_append_of_pos]
    exact fun c hc => blank c (List.mem_reverse.1 hc)

/-- There is one way to take the blanks off. -/
theorem isTrimmed_iff : IsTrimmed s t ↔ t = trim s := by
  constructor
  · rintro ⟨⟨before, after, rfl, blank⟩, first, last⟩
    rw [trim_append_right fun c hc => blank c (List.mem_append.2 (.inr hc)),
      trim_append_left fun c hc => blank c (List.mem_append.2 (.inl hc)), trim_eq_self]
    · refine (Option.all_eq_true_iff_get _ _).2 fun some => ?_
      rw [first _ (Option.get_mem some)]
      rfl
    · refine (Option.all_eq_true_iff_get _ _).2 fun some => ?_
      rw [last _ (Option.get_mem some)]
      rfl
  · rintro rfl
    exact isTrimmed_trim s

/-! ## Numbers -/

/-- The number that is written with these digits, the first one with the most weight. -/
def valueOf (ds : List Char) : Nat :=
  Nat.ofDigits 10 (ds.map fun c => c.toNat - '0'.toNat).reverse

/-- The text has these digits in front of the rest, after a plus sign or without one. -/
structure Leads (t digits rest : List Char) : Prop where
  signed : t = digits ++ rest ∨ t = '+' :: (digits ++ rest)
  digit : ∀ c ∈ digits, c.isDigit = true

/-- The text is a number. -/
def Denotes (t : List Char) (n : Nat) : Prop := ∃ ds, Leads t ds [] ∧ ds ≠ [] ∧ valueOf ds = n

/-- The digits in front are a number beyond the limit already. -/
def Overflows (limit : Nat) (t : List Char) : Prop :=
  ∃ run rest, Leads t run rest ∧ limit < valueOf run

/-- What is wrong with a text that is not a number in range. -/
inductive Misread (limit : Nat) (t : List Char) : NumeralError → Prop
  | empty : t = [] → Misread limit t .empty
  | tooLarge : Overflows limit t → Misread limit t .tooLarge
  | invalidDigit : t ≠ [] → ¬ Overflows limit t → (∀ n, ¬ Denotes t n) →
      Misread limit t .invalidDigit

/-- The number that is written with the digits of `v` and then with these. -/
def valueAfter (v : Nat) (ds : List Char) : Nat := v * 10 ^ ds.length + valueOf ds

@[simp] theorem valueAfter_nil : valueAfter v [] = v := by
  simp [valueAfter, valueOf]

theorem valueAfter_cons :
    valueAfter v (c :: ds) = valueAfter (v * 10 + (c.toNat - '0'.toNat)) ds := by
  simp only [valueAfter, valueOf, List.map_cons, List.reverse_cons, Nat.ofDigits_append,
    Nat.ofDigits_singleton, List.length_reverse, List.length_map, List.length_cons]
  ring

theorem valueAfter_zero : valueAfter 0 ds = valueOf ds := by
  simp [valueAfter]

theorem le_valueAfter (v : Nat) (ds : List Char) : v ≤ valueAfter v ds := by
  have pos : 0 < 10 ^ ds.length := Nat.pow_pos (by decide)
  exact Nat.le_trans (Nat.le_mul_of_pos_right v pos) (Nat.le_add_right _ _)

/-- To read on succeeds exactly if there are only digits left and the number is in range. -/
theorem readDigits_eq_ok_iff (le : v ≤ limit) :
    readDigits limit v s = .ok n ↔
      (∀ c ∈ s, c.isDigit = true) ∧ valueAfter v s = n ∧ n ≤ limit := by
  induction s generalizing v with
  | nil =>
    rw [readDigits, Except.ok.injEq, valueAfter_nil]
    constructor
    · rintro rfl
      exact ⟨nofun, rfl, le⟩
    · exact fun h => h.2.1
  | cons c s ih =>
    rw [readDigits, digitValue?, List.forall_mem_cons, valueAfter_cons]
    cases digit : c.isDigit with
    | false => simp
    | true =>
      simp only [if_true, true_and]
      split
      · rename_i beyond
        have grows := le_valueAfter (v * 10 + (c.toNat - '0'.toNat)) s
        exact iff_of_false nofun fun h => by omega
      · exact ih (by omega)

/-- The digits in front carry a number that stands at `v` over the limit. -/
def Exceeds (limit v : Nat) (s : List Char) : Prop :=
  ∃ run rest, s = run ++ rest ∧ (∀ c ∈ run, c.isDigit = true) ∧ limit < valueAfter v run

theorem exceeds_of_lt (beyond : limit < v) : Exceeds limit v s :=
  ⟨[], s, rfl, nofun, by rwa [valueAfter_nil]⟩

theorem not_exceeds_nil (le : v ≤ limit) : ¬ Exceeds limit v [] := by
  rintro ⟨run, rest, none, -, beyond⟩
  rw [(List.append_eq_nil_iff.1 none.symm).1, valueAfter_nil] at beyond
  omega

theorem exceeds_cons (le : v ≤ limit) :
    Exceeds limit v (c :: s) ↔
      c.isDigit = true ∧ Exceeds limit (v * 10 + (c.toNat - '0'.toNat)) s := by
  constructor
  · rintro ⟨_ | ⟨d, run⟩, rest, split, digits, beyond⟩
    · rw [valueAfter_nil] at beyond
      omega
    · cases split
      rw [valueAfter_cons] at beyond
      obtain ⟨digit, digits⟩ := List.forall_mem_cons.1 digits
      exact ⟨digit, run, rest, rfl, digits, beyond⟩
  · rintro ⟨digit, run, rest, rfl, digits, beyond⟩
    refine ⟨c :: run, rest, rfl, List.forall_mem_cons.2 ⟨digit, digits⟩, ?_⟩
    rwa [valueAfter_cons]

/-- It stops at the digit that carries the number over the limit. -/
theorem readDigits_eq_tooLarge_iff (le : v ≤ limit) :
    readDigits limit v s = .error .tooLarge ↔ Exceeds limit v s := by
  induction s generalizing v with
  | nil => exact iff_of_false nofun (not_exceeds_nil le)
  | cons c s ih =>
    rw [readDigits, digitValue?, exceeds_cons le]
    cases digit : c.isDigit with
    | false => simp
    | true =>
      simp only [if_true, true_and]
      split
      · rename_i beyond
        exact iff_of_true rfl (exceeds_of_lt beyond)
      · exact ih (by omega)

theorem readDigits_ne_empty : readDigits limit v s ≠ .error .empty := by
  induction s generalizing v with
  | nil => exact nofun
  | cons c s ih =>
    rw [readDigits]
    split
    · exact nofun
    · split
      · exact nofun
      · exact ih

/-- Without the plus sign in front. -/
def unsigned : List Char → List Char
  | '+' :: s => s
  | s => s

theorem readNumeral_eq (limit : Nat) (t : List Char) :
    readNumeral limit t =
      if t = [] then .error .empty
      else if unsigned t = [] then .error .invalidDigit
      else readDigits limit 0 (unsigned t) := by
  unfold readNumeral
  split
  · rfl
  · rfl
  · rename_i digits lone
    have some : digits ≠ [] := fun none => lone (none ▸ rfl)
    simp [unsigned, some]
  · rename_i some lone plain
    have same : unsigned t = t := by
      unfold unsigned
      split
      · rename_i s
        exact absurd rfl (plain s)
      · rfl
    rw [same, if_neg some, if_neg some]

theorem leads_iff (some : ds ≠ []) :
    Leads t ds rest ↔ unsigned t = ds ++ rest ∧ ∀ c ∈ ds, c.isDigit = true := by
  obtain ⟨d, ds, rfl⟩ := List.exists_cons_of_ne_nil some
  constructor
  · rintro ⟨rfl | rfl, digits⟩
    · refine ⟨?_, digits⟩
      have digit := digits d List.mem_cons_self
      unfold unsigned
      split
      · rename_i s sign
        cases sign
        cases digit
      · rfl
    · exact ⟨rfl, digits⟩
  · rintro ⟨split, digits⟩
    refine ⟨?_, digits⟩
    unfold unsigned at split
    split at split
    · exact .inr (split ▸ rfl)
    · exact .inl split

theorem denotes_iff :
    Denotes t n ↔
      unsigned t ≠ [] ∧ (∀ c ∈ unsigned t, c.isDigit = true) ∧ valueOf (unsigned t) = n := by
  constructor
  · rintro ⟨ds, leads, some, rfl⟩
    obtain ⟨same, digits⟩ := (leads_iff some).1 leads
    rw [List.append_nil] at same
    rw [same]
    exact ⟨some, digits, rfl⟩
  · rintro ⟨some, digits, rfl⟩
    exact ⟨_, (leads_iff some).2 ⟨(List.append_nil _).symm, digits⟩, some, rfl⟩

theorem overflows_iff : Overflows limit t ↔ Exceeds limit 0 (unsigned t) := by
  have some : ∀ run, limit < valueOf run → run ≠ [] := by
    rintro run beyond rfl
    exact Nat.not_lt_zero _ beyond
  constructor
  · rintro ⟨run, rest, leads, beyond⟩
    obtain ⟨split, digits⟩ := (leads_iff (some run beyond)).1 leads
    exact ⟨run, rest, split, digits, valueAfter_zero ▸ beyond⟩
  · rintro ⟨run, rest, split, digits, beyond⟩
    rw [valueAfter_zero] at beyond
    exact ⟨run, rest, (leads_iff (some run beyond)).2 ⟨split, digits⟩, beyond⟩

/-- The numbers in range are read, and nothing else is. -/
theorem readNumeral_eq_ok_iff : readNumeral limit t = .ok n ↔ Denotes t n ∧ n ≤ limit := by
  rw [readNumeral_eq, denotes_iff]
  split
  · rename_i empty
    subst empty
    exact iff_of_false nofun fun h => h.1.1 rfl
  · split
    · rename_i lone
      exact iff_of_false nofun fun h => h.1.1 lone
    · rename_i some
      rw [readDigits_eq_ok_iff (Nat.zero_le _), valueAfter_zero]
      exact ⟨fun h => ⟨⟨some, h.1, h.2.1⟩, h.2.2⟩, fun h => ⟨h.1.2.1, h.1.2.2, h.2⟩⟩

theorem readNumeral_eq_empty_iff (limit : Nat) (t : List Char) :
    readNumeral limit t = .error .empty ↔ t = [] := by
  rw [readNumeral_eq]
  split
  · rename_i empty
    exact iff_of_true rfl empty
  · rename_i some
    split
    · exact iff_of_false nofun some
    · exact iff_of_false readDigits_ne_empty some

theorem readNumeral_eq_tooLarge_iff :
    readNumeral limit t = .error .tooLarge ↔ Overflows limit t := by
  have none := not_exceeds_nil (Nat.zero_le limit)
  rw [readNumeral_eq, overflows_iff]
  split
  · rename_i empty
    subst empty
    exact iff_of_false nofun none
  · split
    · rename_i lone
      rw [lone]
      exact iff_of_false nofun none
    · exact readDigits_eq_tooLarge_iff (Nat.zero_le _)

/-- A number beyond the limit is beyond it with all its digits. -/
theorem Denotes.overflows (denotes : Denotes t n) (beyond : limit < n) : Overflows limit t := by
  obtain ⟨ds, leads, -, rfl⟩ := denotes
  exact ⟨ds, [], leads, beyond⟩

/-- A text that is not read is refused with what is wrong with it. -/
theorem readNumeral_eq_error_iff :
    readNumeral limit t = .error cause ↔ Misread limit t cause := by
  constructor
  · intro refused
    cases cause with
    | empty => exact .empty ((readNumeral_eq_empty_iff limit t).1 refused)
    | tooLarge => exact .tooLarge (readNumeral_eq_tooLarge_iff.1 refused)
    | invalidDigit =>
      have within : ¬ Overflows limit t := by
        rw [← readNumeral_eq_tooLarge_iff, refused]
        exact nofun
      refine .invalidDigit ?_ within ?_
      · rw [Ne, ← readNumeral_eq_empty_iff limit, refused]
        exact nofun
      · intro n denotes
        have le : n ≤ limit := Nat.le_of_not_lt fun beyond => within (denotes.overflows beyond)
        have read := readNumeral_eq_ok_iff.2 ⟨denotes, le⟩
        rw [refused] at read
        cases read
  · rintro (empty | beyond | ⟨some, within, noNumber⟩)
    · exact (readNumeral_eq_empty_iff limit t).2 empty
    · exact readNumeral_eq_tooLarge_iff.2 beyond
    · cases read : readNumeral limit t with
      | ok n => exact absurd (readNumeral_eq_ok_iff.1 read).1 (noNumber n)
      | error cause =>
        cases cause with
        | empty => exact absurd ((readNumeral_eq_empty_iff limit t).1 read) some
        | tooLarge => exact absurd (readNumeral_eq_tooLarge_iff.1 read) within
        | invalidDigit => rfl

end Text

end StackSweep
