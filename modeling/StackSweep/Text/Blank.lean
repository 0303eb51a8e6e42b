/-!
# Blank characters

The white space of Unicode. Values are trimmed of it on both sides before they are read.

This is the trimming that `from_lookup` does.
-/

namespace StackSweep.Text

/-- A character with the `White_Space` property. -/
def isBlank (c : Char) : Bool :=
  let n := c.toNat
  (0x09 ≤ n && n ≤ 0x0D) || n == 0x20 || n == 0x85 || n == 0xA0 || n == 0x1680 ||
    (0x2000 ≤ n && n ≤ 0x200A) || n == 0x2028 || n == 0x2029 || n == 0x202F || n == 0x205F ||
    n == 0x3000

/-- Without the blanks at its two ends. -/
def trim (s : List Char) : List Char :=
  ((s.dropWhile isBlank).reverse.dropWhile isBlank).reverse

/-- A text without blanks at its ends stays as it is. -/
theorem trim_eq_self {s : List Char} (hd : s.head?.all (!isBlank ·))
    (tl : s.getLast?.all (!isBlank ·)) : trim s = s := by
  have keep : ∀ l : List Char, l.head?.all (!isBlank ·) → l.dropWhile isBlank = l := by
    intro l h
    cases l with
    | nil => rfl
    | cons c r => simp at h; simp [h]
  unfold trim
  rw [keep s hd, keep s.reverse (by simpa [List.head?_reverse] using tl), List.reverse_reverse]

end StackSweep.Text
