import StackSweep.Text.Digits

/-!
# Layouts

A value is shown either on one line, as `Name { field: 1, other: 2 }`, or as a block with a line
for each part, four spaces deeper than the line that opens it. A layout holds both forms, and the
layout of a compound is built from the layouts of its parts.

The layouts are those of `WatermarkState`, `ProcessingMark`, `StackIterator`, `StackWatermark`,
`WatermarkSet` and `EpochCounter`.
-/

namespace StackSweep.Text

/-- The two written forms of a value: one line, or the lines of a block. -/
structure Layout where
  line : String
  block : List String

namespace Layout

/-- The block as one text. -/
def indented (l : Layout) : String := "\n".intercalate l.block

/-- A text that is never broken. -/
def atom (text : String) : Layout := ⟨text, [text]⟩

def truth (b : Bool) : Layout := atom (Text.truth b)

/-- The lines of a part inside its compound: indented, led by `lead`, and closed by a comma. -/
def nested (lead : String) : List String → List String
  | [] => []
  | [l] => ["    " ++ lead ++ l ++ ","]
  | l :: ls => ("    " ++ lead ++ l) :: inner ls
where
  inner : List String → List String
    | [] => []
    | [l] => ["    " ++ l ++ ","]
    | l :: ls => ("    " ++ l) :: inner ls

private def fieldLines (fields : List (String × Layout)) : List String :=
  fields.flatMap fun (name, l) => nested (name ++ ": ") l.block

private def fieldText (fields : List (String × Layout)) : List String :=
  fields.map fun (name, l) => name ++ ": " ++ l.line

/-- A record with all its fields. -/
def record (name : String) (fields : List (String × Layout)) : Layout where
  line := name ++ " \x7b " ++ ", ".intercalate (fieldText fields) ++ " \x7d"
  block := (name ++ " \x7b") :: fieldLines fields ++ ["\x7d"]

/-- A record that has more fields than it shows. -/
def partialRecord (name : String) (fields : List (String × Layout)) : Layout where
  line := name ++ " \x7b " ++ ", ".intercalate (fieldText fields ++ [".."]) ++ " \x7d"
  block := (name ++ " \x7b") :: fieldLines fields ++ ["    ..", "\x7d"]

/-- A name applied to one value. -/
def applied (name : String) (l : Layout) : Layout where
  line := name ++ "(" ++ l.line ++ ")"
  block := (name ++ "(") :: nested "" l.block ++ [")"]

/-- A list in brackets. The empty list is never broken. -/
def list (items : List Layout) : Layout where
  line := "[" ++ ", ".intercalate (items.map line) ++ "]"
  block :=
    if items.isEmpty then ["[]"]
    else "[" :: (items.flatMap fun l => nested "" l.block) ++ ["]"]

/-- A value that may be missing. -/
def optional : Option Layout → Layout
  | none => atom "None"
  | some l => applied "Some" l

end Layout

end StackSweep.Text
