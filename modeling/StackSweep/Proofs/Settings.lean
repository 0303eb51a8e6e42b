import StackSweep.Pacing
import StackSweep.Proofs.Numerals

/-!
# What the settings may say

A pacing is read from the texts of two settings, and then it has to meet two bounds. What either
setting gives does not depend on the other. A setting that is not set gives its default, and a text
gives the number that is left when its blanks are taken off. Of all that may be wrong only the first
thing is reported: the first setting, then the second, then the bounds in the same order. The second
setting is not even asked for when the first one is misread.
-/

namespace StackSweep

namespace Pacing

variable {lookup lookup' : String → Option String} {text : String} {text? : Option String}
  {default m n : Nat} {p : Pacing} {e : PacingError} {cause : Text.NumeralError}

/-! ## One setting -/

/-- The setting stands for this number, by default or by its text. -/
inductive Gives (default : Nat) : Option String → Nat → Prop
  | unset : Gives default none default
  | given {text : String} {t : List Char} {n : Nat} : Text.IsTrimmed text.toList t →
      Text.Denotes t n → n ≤ 2 ^ 64 - 1 → Gives default (some text) n

/-- The setting has this text, which is not a number in range. -/
def IsMisread (text? : Option String) (text : String) (cause : Text.NumeralError) : Prop :=
  text? = some text ∧
    ∃ t, Text.IsTrimmed text.toList t ∧ Text.Misread (2 ^ 64 - 1) t cause

theorem limit_eq : limit = 2 ^ 64 - 1 := rfl

theorem readSetting_eq_ok_iff (setting : String) :
    readSetting setting default text? = .ok n ↔ Gives default text? n := by
  cases text? with
  | none =>
    rw [readSetting, Except.ok.injEq]
    constructor
    · rintro rfl
      exact .unset
    · rintro ⟨⟩
      rfl
  | some text =>
    have reads : readSetting setting default (some text) = .ok n ↔
        Text.readNumeral limit (Text.trim text.toList) = .ok n := by
      rw [readSetting]
      cases Text.readNumeral limit (Text.trim text.toList) with
      | ok => simp only [Except.ok.injEq]
      | error => exact iff_of_false nofun nofun
    rw [reads, Text.readNumeral_eq_ok_iff, limit_eq]
    constructor
    · rintro ⟨denotes, le⟩
      exact .given (Text.isTrimmed_trim _) denotes le
    · rintro (_ | ⟨trimmed, denotes, le⟩)
      exact ⟨Text.isTrimmed_iff.1 trimmed ▸ denotes, le⟩

theorem readSetting_eq_error_iff (setting : String) (default : Nat) :
    readSetting setting default text? = .error e ↔
      ∃ text cause, IsMisread text? text cause ∧ e = .unreadable setting text cause := by
  cases text? with
  | none => exact iff_of_false nofun fun ⟨_, _, h, _⟩ => nomatch h.1
  | some text =>
    have misreads : ∀ cause, IsMisread (some text) text cause ↔
        Text.readNumeral limit (Text.trim text.toList) = .error cause := by
      intro cause
      rw [Text.readNumeral_eq_error_iff, limit_eq]
      constructor
      · rintro ⟨-, t, trimmed, misread⟩
        exact Text.isTrimmed_iff.1 trimmed ▸ misread
      · exact fun misread => ⟨rfl, _, Text.isTrimmed_trim _, misread⟩
    constructor
    · intro refused
      rw [readSetting] at refused
      split at refused
      · cases refused
      · rename_i cause misread
        cases refused
        exact ⟨text, cause, (misreads cause).2 misread, rfl⟩
    · rintro ⟨text', cause, misread, rfl⟩
      obtain rfl : text = text' := Option.some.inj misread.1
      rw [readSetting, (misreads cause).1 misread]

/-! ## Both settings -/

theorem check_eq_error_iff :
    p.check = .error e ↔
      (p.initialFrames < 2 ∧ e = .tooFewInitialFrames p.initialFrames) ∨
        2 ≤ p.initialFrames ∧ p.framesPerYield = 0 ∧ e = .zeroYieldInterval := by
  unfold check safetyBuffer
  split
  · rename_i few
    rw [Except.error.injEq]
    constructor
    · exact fun same => .inl ⟨few, same.symm⟩
    · rintro (⟨-, rfl⟩ | ⟨enough, -⟩)
      · rfl
      · omega
  · rename_i enough
    split
    · rename_i zero
      rw [Except.error.injEq]
      constructor
      · exact fun same => .inr ⟨Nat.le_of_not_lt enough, zero, same.symm⟩
      · rintro (⟨few, -⟩ | ⟨-, -, rfl⟩)
        · exact absurd few enough
        · rfl
    · rename_i positive
      refine iff_of_false nofun ?_
      rintro (⟨few, -⟩ | ⟨-, zero, -⟩)
      · exact enough few
      · exact positive zero

/-- The number of steps at a start is this one. -/
def GivesInitial (lookup : String → Option String) (m : Nat) : Prop :=
  Gives standard.initialFrames (lookup initialFramesSetting) m

/-- The number of frames between two yields is this one. -/
def GivesPerYield (lookup : String → Option String) (n : Nat) : Prop :=
  Gives standard.framesPerYield (lookup framesPerYieldSetting) n

/-- The first thing that is wrong with the settings. -/
inductive FirstFault (lookup : String → Option String) : PacingError → Prop
  | initialFrames {text : String} {cause : Text.NumeralError} :
      IsMisread (lookup initialFramesSetting) text cause →
      FirstFault lookup (.unreadable initialFramesSetting text cause)
  | framesPerYield {m : Nat} {text : String} {cause : Text.NumeralError} :
      GivesInitial lookup m → IsMisread (lookup framesPerYieldSetting) text cause →
      FirstFault lookup (.unreadable framesPerYieldSetting text cause)
  | tooFew {m n : Nat} : GivesInitial lookup m → GivesPerYield lookup n → m < 2 →
      FirstFault lookup (.tooFewInitialFrames m)
  | zeroInterval {m : Nat} : GivesInitial lookup m → GivesPerYield lookup 0 → 2 ≤ m →
      FirstFault lookup .zeroYieldInterval

/-- A setting is read, or it is misread. -/
theorem gives_or_isMisread (default : Nat) (text? : Option String) :
    (∃ n, Gives default text? n) ∨ ∃ text cause, IsMisread text? text cause := by
  cases read : readSetting initialFramesSetting default text? with
  | ok n => exact .inl ⟨n, (readSetting_eq_ok_iff _).1 read⟩
  | error e =>
    obtain ⟨text, cause, misread, -⟩ := (readSetting_eq_error_iff _ _).1 read
    exact .inr ⟨text, cause, misread⟩

theorem ofSettings_of_isMisread (misread : IsMisread (lookup initialFramesSetting) text cause) :
    ofSettings lookup =
      (.error (.unreadable initialFramesSetting text cause), [initialFramesSetting]) := by
  have refused := (readSetting_eq_error_iff initialFramesSetting standard.initialFrames).2
    ⟨text, cause, misread, rfl⟩
  rw [ofSettings, refused]

theorem ofSettings_of_givesInitial (first : GivesInitial lookup m)
    (misread : IsMisread (lookup framesPerYieldSetting) text cause) :
    ofSettings lookup =
      (.error (.unreadable framesPerYieldSetting text cause),
        [initialFramesSetting, framesPerYieldSetting]) := by
  have read := (readSetting_eq_ok_iff initialFramesSetting).2 first
  have refused := (readSetting_eq_error_iff framesPerYieldSetting standard.framesPerYield).2
    ⟨text, cause, misread, rfl⟩
  rw [ofSettings, read]
  dsimp only
  rw [refused]

/-- Two numbers are left to the check. -/
theorem ofSettings_of_gives (first : GivesInitial lookup m) (second : GivesPerYield lookup n) :
    ofSettings lookup =
      ((check ⟨m, n⟩).map fun _ => ⟨m, n⟩, [initialFramesSetting, framesPerYieldSetting]) := by
  have read := (readSetting_eq_ok_iff initialFramesSetting).2 first
  have read' := (readSetting_eq_ok_iff framesPerYieldSetting).2 second
  rw [ofSettings, read]
  dsimp only
  rw [read']
  dsimp only
  cases check ⟨m, n⟩ <;> rfl

/-- Either setting is misread, or both give a number. -/
theorem ofSettings_cases (lookup : String → Option String) :
    (∃ text cause, IsMisread (lookup initialFramesSetting) text cause ∧
      ofSettings lookup =
        (.error (.unreadable initialFramesSetting text cause), [initialFramesSetting])) ∨
    (∃ m text cause, GivesInitial lookup m ∧
      IsMisread (lookup framesPerYieldSetting) text cause ∧
      ofSettings lookup =
        (.error (.unreadable framesPerYieldSetting text cause),
          [initialFramesSetting, framesPerYieldSetting])) ∨
    ∃ m n, GivesInitial lookup m ∧ GivesPerYield lookup n ∧
      ofSettings lookup =
        ((check ⟨m, n⟩).map fun _ => ⟨m, n⟩, [initialFramesSetting, framesPerYieldSetting]) := by
  rcases gives_or_isMisread standard.initialFrames (lookup initialFramesSetting) with
    ⟨m, first⟩ | ⟨text, cause, misread⟩
  · rcases gives_or_isMisread standard.framesPerYield (lookup framesPerYieldSetting) with
      ⟨n, second⟩ | ⟨text, cause, misread⟩
    · exact .inr (.inr ⟨m, n, first, second, ofSettings_of_gives first second⟩)
    · exact .inr (.inl ⟨m, text, cause, first, misread, ofSettings_of_givesInitial first misread⟩)
  · exact .inl ⟨text, cause, misread, ofSettings_of_isMisread misread⟩

theorem ofSettings_eq_ok_iff :
    (ofSettings lookup).1 = .ok p ↔
      GivesInitial lookup p.initialFrames ∧ GivesPerYield lookup p.framesPerYield ∧
        2 ≤ p.initialFrames ∧ 1 ≤ p.framesPerYield := by
  constructor
  · intro read
    rcases ofSettings_cases lookup with
      ⟨text, cause, -, eq⟩ | ⟨m, text, cause, -, -, eq⟩ | ⟨m, n, first, second, eq⟩
    · rw [eq] at read
      cases read
    · rw [eq] at read
      cases read
    · rw [eq] at read
      cases checked : check ⟨m, n⟩ with
      | ok =>
        rw [checked] at read
        cases read
        obtain ⟨enough, positive⟩ := check_eq_ok_iff.1 checked
        exact ⟨first, second, enough, positive⟩
      | error e =>
        rw [checked] at read
        cases read
  · rintro ⟨first, second, enough, positive⟩
    rw [ofSettings_of_gives first second, check_eq_ok_iff.2 ⟨enough, positive⟩]
    rfl

theorem ofSettings_eq_error_iff : (ofSettings lookup).1 = .error e ↔ FirstFault lookup e := by
  constructor
  · intro refused
    rcases ofSettings_cases lookup with
      ⟨text, cause, misread, eq⟩ | ⟨m, text, cause, first, misread, eq⟩ | ⟨m, n, first, second, eq⟩
    · rw [eq] at refused
      cases refused
      exact .initialFrames misread
    · rw [eq] at refused
      cases refused
      exact .framesPerYield first misread
    · rw [eq] at refused
      cases checked : check ⟨m, n⟩ with
      | ok =>
        rw [checked] at refused
        cases refused
      | error fault =>
        rw [checked] at refused
        cases refused
        rcases check_eq_error_iff.1 checked with ⟨few, rfl⟩ | ⟨enough, zero, rfl⟩
        · exact .tooFew first second few
        · exact .zeroInterval first (zero ▸ second) enough
  · intro fault
    cases fault with
    | initialFrames misread => rw [ofSettings_of_isMisread misread]
    | framesPerYield first misread => rw [ofSettings_of_givesInitial first misread]
    | tooFew first second few =>
      rw [ofSettings_of_gives first second, check_eq_error_iff.2 (.inl ⟨few, rfl⟩)]
      rfl
    | zeroInterval first second enough =>
      rw [ofSettings_of_gives first second, check_eq_error_iff.2 (.inr ⟨enough, rfl, rfl⟩)]
      rfl

/-- The answer depends on nothing but the settings that were asked for. -/
theorem ofSettings_congr (same : ∀ s ∈ (ofSettings lookup).2, lookup' s = lookup s) :
    ofSettings lookup' = ofSettings lookup := by
  have first : lookup' initialFramesSetting = lookup initialFramesSetting := by
    rcases ofSettings_cases lookup with
      ⟨text, cause, -, eq⟩ | ⟨m, text, cause, -, -, eq⟩ | ⟨m, n, -, -, eq⟩ <;>
    exact same _ (eq ▸ List.mem_cons_self)
  rcases ofSettings_cases lookup with
    ⟨text, cause, misread, eq⟩ | ⟨m, text, cause, -, -, eq⟩ | ⟨m, n, -, -, eq⟩
  · rw [eq]
    exact ofSettings_of_isMisread (first ▸ misread)
  all_goals
    have second : lookup' framesPerYieldSetting = lookup framesPerYieldSetting :=
      same _ (eq ▸ List.mem_cons_of_mem _ List.mem_cons_self)
    rw [ofSettings, ofSettings, first, second]

/-- The first setting alone is asked for exactly if it is misread. -/
theorem asked_initial_iff :
    (ofSettings lookup).2 = [initialFramesSetting] ↔
      ∃ text cause, IsMisread (lookup initialFramesSetting) text cause := by
  constructor
  · intro asked
    rcases ofSettings_cases lookup with
      ⟨text, cause, misread, -⟩ | ⟨m, text, cause, -, -, eq⟩ | ⟨m, n, -, -, eq⟩
    · exact ⟨text, cause, misread⟩
    · rw [eq] at asked
      cases asked
    · rw [eq] at asked
      cases asked
  · rintro ⟨text, cause, misread⟩
    rw [ofSettings_of_isMisread misread]

/-- Both are asked for exactly if the first one gives a number. -/
theorem asked_both_iff :
    (ofSettings lookup).2 = [initialFramesSetting, framesPerYieldSetting] ↔
      ∃ m, GivesInitial lookup m := by
  constructor
  · intro asked
    rcases ofSettings_cases lookup with
      ⟨text, cause, -, eq⟩ | ⟨m, text, cause, first, -, -⟩ | ⟨m, n, first, -, -⟩
    · rw [eq] at asked
      cases asked
    · exact ⟨m, first⟩
    · exact ⟨m, first⟩
  · rintro ⟨m, first⟩
    rcases gives_or_isMisread standard.framesPerYield (lookup framesPerYieldSetting) with
      ⟨n, second⟩ | ⟨text, cause, misread⟩
    · rw [ofSettings_of_gives first second]
    · rw [ofSettings_of_givesInitial first misread]

/-- A pacing is read exactly if both settings give the numbers in it, by default or by their texts,
and these meet the bounds. Otherwise the error is the first thing that is wrong. The second setting
is asked for exactly if the first one gives a number. -/
theorem ofSettings_reads (lookup : String → Option String) :
    (∀ p, (ofSettings lookup).1 = .ok p ↔
      GivesInitial lookup p.initialFrames ∧ GivesPerYield lookup p.framesPerYield ∧
        2 ≤ p.initialFrames ∧ 1 ≤ p.framesPerYield) ∧
    (∀ e, (ofSettings lookup).1 = .error e ↔ FirstFault lookup e) ∧
    ((ofSettings lookup).2 = [initialFramesSetting] ↔
      ∃ text cause, IsMisread (lookup initialFramesSetting) text cause) ∧
    ((ofSettings lookup).2 = [initialFramesSetting, framesPerYieldSetting] ↔
      ∃ m, GivesInitial lookup m) := by
  refine ⟨?_, ?_, asked_initial_iff, asked_both_iff⟩
  · intro p
    exact ofSettings_eq_ok_iff
  · intro e
    exact ofSettings_eq_error_iff

/-- A number beyond the limit is reported as that, though a letter follows. -/
example :
    let text := " 18446744073709551616x"
    ofSettings (fun s => if s = framesPerYieldSetting then some text else none) =
      (.error (.unreadable framesPerYieldSetting text .tooLarge),
        [initialFramesSetting, framesPerYieldSetting]) := by
  decide +kernel

end Pacing

end StackSweep
