/-!
# Reading numbers

A natural number is written as decimal digits, with a plus sign in front if the writer likes.
Reading it goes from left to right and stops at the first thing that is wrong: a character that is
no digit, or a digit that carries the number over the limit.

`from_lookup` reads its two values in this way.
-/

namespace StackSweep.Text

/-- Why a text is not a number in range. -/
inductive NumeralError
  /-- There is nothing to read. -/
  | empty
  /-- A character that is no digit, or a sign alone. -/
  | invalidDigit
  /-- The number exceeds the limit. -/
  | tooLarge
deriving DecidableEq, Repr

namespace NumeralError

def message : NumeralError → String
  | .empty => "cannot parse integer from empty string"
  | .invalidDigit => "invalid digit found in string"
  | .tooLarge => "number too large to fit in target type"

/-- The name of the cause in reports. -/
def name : NumeralError → String
  | .empty => "Empty"
  | .invalidDigit => "InvalidDigit"
  | .tooLarge => "PosOverflow"

end NumeralError

/-- The value of a decimal digit. -/
def digitValue? (c : Char) : Option Nat :=
  if c.isDigit then some (c.toNat - '0'.toNat) else none

/-- Reads the remaining digits of a number that stands at `value`. -/
def readDigits (limit : Nat) : Nat → List Char → Except NumeralError Nat
  | value, [] => .ok value
  | value, c :: rest =>
    match digitValue? c with
    | none => .error .invalidDigit
    | some d =>
      if limit < value * 10 + d then .error .tooLarge else readDigits limit (value * 10 + d) rest

/-- Reads a number of at most `limit`. -/
def readNumeral (limit : Nat) : List Char → Except NumeralError Nat
  | [] => .error .empty
  | ['+'] => .error .invalidDigit
  | '+' :: digits => readDigits limit 0 digits
  | digits => readDigits limit 0 digits

end StackSweep.Text
