import StackSweep.Text.Blank
import StackSweep.Text.Numeral
import StackSweep.Text.Quoted
import StackSweep.Text.Layout

/-!
# Pacing

How eagerly a campaign is processed: the steps taken at once when it starts, and the barrier
frames a drain handles before it gives up the lock for a moment. Both have defaults and can be set
through two named settings.

`Pacing` is `WatermarkConfig` with its default. `check` is `validate`, `ofSettings` is
`from_lookup`, and `PacingError` is `ConfigError` with the texts of its messages.
-/

namespace StackSweep

/-- How many steps a start takes at once, and how many barrier frames a drain handles between two
yields. -/
structure Pacing where
  initialFrames : Nat
  framesPerYield : Nat
deriving DecidableEq, Repr

/-- Why a pacing is refused. -/
inductive PacingError
  /-- A start would not cover the safety buffer. -/
  | tooFewInitialFrames (given : Nat)
  /-- A drain would have to yield before its first frame. -/
  | zeroYieldInterval
  /-- The text of a setting is not a number in range. -/
  | unreadable (setting text : String) (cause : Text.NumeralError)
deriving DecidableEq, Repr

namespace Pacing

/-- The frames that have to be safe before a campaign counts as started: the one that runs and the
one it returns into. -/
def safetyBuffer : Nat := 2

/-- The greatest number that a setting can hold. -/
def limit : Nat := 18446744073709551615

def initialFramesSetting : String := "STACKMARK_INITIAL_FRAMES"

def framesPerYieldSetting : String := "STACKMARK_FRAMES_PER_YIELD"

/-- The safety buffer and one more frame, for a thread that polls again on its way out. -/
def standard : Pacing := ⟨safetyBuffer + 1, 5⟩

instance : Inhabited Pacing := ⟨standard⟩

/-- The initial steps are looked at first. -/
def check (p : Pacing) : Except PacingError Unit :=
  if p.initialFrames < safetyBuffer then .error (.tooFewInitialFrames p.initialFrames)
  else if p.framesPerYield = 0 then .error .zeroYieldInterval
  else .ok ()

/-- The value of one setting, the default if it is not set. -/
def readSetting (setting : String) (default : Nat) : Option String → Except PacingError Nat
  | none => .ok default
  | some text =>
    match Text.readNumeral limit (Text.trim text.toList) with
    | .ok n => .ok n
    | .error cause => .error (.unreadable setting text cause)

/-- Reads both settings and checks the result. The answer comes with the settings that were asked
for: the second is not, if the first cannot be read. -/
def ofSettings (lookup : String → Option String) : Except PacingError Pacing × List String :=
  match readSetting initialFramesSetting standard.initialFrames (lookup initialFramesSetting) with
  | .error e => (.error e, [initialFramesSetting])
  | .ok initial =>
    let asked := [initialFramesSetting, framesPerYieldSetting]
    let text? := lookup framesPerYieldSetting
    match readSetting framesPerYieldSetting standard.framesPerYield text? with
    | .error e => (.error e, asked)
    | .ok interval =>
      let p : Pacing := ⟨initial, interval⟩
      match p.check with
      | .error e => (.error e, asked)
      | .ok () => (.ok p, asked)

def layout (p : Pacing) : Text.Layout :=
  .record "WatermarkConfig"
    [("initial_frames", .atom (Text.decimal p.initialFrames)),
     ("frames_per_yield", .atom (Text.decimal p.framesPerYield))]

/-- What a pacing has to meet. -/
structure Valid (p : Pacing) : Prop where
  covers_buffer : safetyBuffer ≤ p.initialFrames
  interval_pos : 0 < p.framesPerYield

theorem check_eq_ok_iff {p : Pacing} : p.check = .ok () ↔ p.Valid := by
  unfold check
  constructor
  · intro h
    split at h
    · cases h
    · split at h
      · cases h
      · exact ⟨by omega, by omega⟩
  · rintro ⟨h₁, h₂⟩
    rw [if_neg (by omega), if_neg (by omega)]

theorem valid_standard : standard.Valid := ⟨by decide, by decide⟩

end Pacing

namespace PacingError

/-- The name of the cause in reports. -/
def name : PacingError → String
  | .tooFewInitialFrames _ => "InitialFramesTooSmall"
  | .zeroYieldInterval => "ZeroYieldInterval"
  | .unreadable .. => "InvalidVar"

def message : PacingError → String
  | .tooFewInitialFrames n =>
    "initial_frames must be at least " ++ Text.decimal Pacing.safetyBuffer ++
      " to cover the safety buffer (got " ++ Text.decimal n ++ ")"
  | .zeroYieldInterval => "frames_per_yield must be non-zero"
  | .unreadable setting text cause =>
    "invalid value " ++ Text.quoted text ++ " for " ++ setting ++ ": " ++ cause.message

def layout : PacingError → Text.Layout
  | .tooFewInitialFrames n => .applied "InitialFramesTooSmall" (.atom (Text.decimal n))
  | .zeroYieldInterval => .atom "ZeroYieldInterval"
  | .unreadable setting text cause =>
    .record "InvalidVar"
      [("var", .atom (Text.quoted setting)), ("value", .atom (Text.quoted text)),
       ("source", .record "ParseIntError" [("kind", .atom cause.name)])]

/-- The numeral that could not be read, where there is one. -/
def cause? : PacingError → Option Text.NumeralError
  | .unreadable _ _ cause => some cause
  | _ => none

end PacingError

end StackSweep
