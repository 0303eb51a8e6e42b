/-!
# Written values

Spellings of numbers and truth values, and padding to a width.
-/

namespace StackSweep.Text

/-- Lower-case hexadecimal after `0x`, without leading zeros. -/
def hexadecimal (n : Nat) : String := "0x" ++ String.ofList (Nat.toDigits 16 n)

def truth (b : Bool) : String := if b then "true" else "false"

def decimal (n : Nat) : String := String.ofList (Nat.toDigits 10 n)

/-- A signed number, with a minus sign only below zero. -/
def signed : Int → String
  | .ofNat n => decimal n
  | .negSucc n => "-" ++ decimal (n + 1)

/-- `text` moved to the right end of a field of the given width. -/
def alignRight (fill : Char) (width : Nat) (text : String) : String :=
  String.ofList (List.replicate (width - text.length) fill) ++ text

/-- `text` at the left end of a field of the given width. -/
def alignLeft (fill : Char) (width : Nat) (text : String) : String :=
  text ++ String.ofList (List.replicate (width - text.length) fill)

end StackSweep.Text
