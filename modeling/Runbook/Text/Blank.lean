/-!
# Blank characters

The characters that count as white space wherever the program trims a text, splits a list of
codes or asks whether a field is empty.  They are the code points with the Unicode property
`White_Space`.

`isBlank_of_isWhitespace` says that every white space character of ASCII is among them.
-/

namespace Runbook.Text

/-- The code points of the property `White_Space`. -/
def isBlank (c : Char) : Bool :=
  let n := c.toNat
  (9 ≤ n && n ≤ 13) || n == 32 || n == 0x85 || n == 0xA0 || n == 0x1680 ||
    (0x2000 ≤ n && n ≤ 0x200A) || n == 0x2028 || n == 0x2029 || n == 0x202F || n == 0x205F ||
    n == 0x3000

/-- The text without its leading blanks. -/
def trimStart (cs : List Char) : List Char := cs.dropWhile isBlank

/-- The text without its trailing blanks. -/
def trimEnd (cs : List Char) : List Char := (cs.reverse.dropWhile isBlank).reverse

/-- The text without the blanks at either end. -/
def trimmed (cs : List Char) : List Char := trimEnd (trimStart cs)

/-- The string without the blanks at either end. -/
def trim (s : String) : String := String.ofList (trimmed s.toList)

/-- A string that holds nothing but blanks. -/
def isBlankText (s : String) : Bool := s.toList.all isBlank

theorem isBlank_of_isWhitespace {c : Char} (h : c.isWhitespace = true) : isBlank c = true := by
  simp only [Char.isWhitespace, Bool.or_eq_true, decide_eq_true_eq] at h
  rcases h with ((rfl | rfl) | rfl) | rfl <;> decide

end Runbook.Text
