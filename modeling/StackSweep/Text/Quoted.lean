import StackSweep.Text.Unmarked
import StackSweep.Text.Digits

/-!
# Quoted texts

A text between double quotes, in which a reader can see every character: quotes and backslashes
are led by a backslash, the common controls have short names, and other unmarked characters are
spelled by their number in braces.

A value that `from_lookup` cannot read is quoted in the error, and so is a stray error in the
warning of `ProcessingMark`.
-/

namespace StackSweep.Text

/-- A character inside a quoted text. -/
def quotedChar (c : Char) : String :=
  match c with
  | '\x00' => "\\0"
  | '\t' => "\\t"
  | '\n' => "\\n"
  | '\r' => "\\r"
  | '\x22' => "\\\""
  | '\x5c' => "\\\\"
  | c =>
    if isUnmarked c then "\\u\x7b" ++ String.ofList (Nat.toDigits 16 c.toNat) ++ "\x7d"
    else c.toString

def quoted (s : String) : String :=
  "\"" ++ String.join (s.toList.map quotedChar) ++ "\""

end StackSweep.Text
