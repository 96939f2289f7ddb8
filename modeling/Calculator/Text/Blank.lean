/-!
# Blank characters

The characters of Unicode's `White_Space` property, which may stand anywhere in an expression
without changing it, and the operations that drop them.
-/

namespace Calculator.Text

/-- A blank character: one of the twenty-five of the `White_Space` property. -/
def isBlank (c : Char) : Bool :=
  let n := c.toNat
  (0x9 ≤ n && n ≤ 0xD) || n == 0x20 || n == 0x85 || n == 0xA0 || n == 0x1680 ||
    (0x2000 ≤ n && n ≤ 0x200A) || n == 0x2028 || n == 0x2029 || n == 0x202F || n == 0x205F ||
    n == 0x3000

/-- All characters but the blank ones, in order. -/
def stripBlanks (cs : List Char) : List Char :=
  cs.filter fun c => !isBlank c

/-- Drops the blank characters at the start. -/
def trimStart (cs : List Char) : List Char :=
  cs.dropWhile isBlank

/-- Drops the blank characters at the end. -/
def trimEnd (cs : List Char) : List Char :=
  (cs.reverse.dropWhile isBlank).reverse

/-- Drops the blank characters at both ends. -/
def trim (cs : List Char) : List Char :=
  trimEnd (trimStart cs)

/-- Every blank character of ASCII's narrower notion is blank. -/
theorem isBlank_of_isWhitespace {c : Char} (h : c.isWhitespace = true) : isBlank c = true := by
  simp only [Char.isWhitespace, Bool.or_eq_true, decide_eq_true_eq] at h
  rcases h with ((rfl | rfl) | rfl) | rfl <;> decide

/-- Dropping characters at the start never lengthens a text. -/
theorem length_dropWhile_le {α : Type} (p : α → Bool) (xs : List α) :
    (xs.dropWhile p).length ≤ xs.length :=
  (List.dropWhile_suffix p).length_le

/-- Trimming never lengthens a text. -/
theorem length_trim_le (cs : List Char) : (trim cs).length ≤ cs.length := by
  have hstart := length_dropWhile_le isBlank cs
  have hend := length_dropWhile_le isBlank (cs.dropWhile isBlank).reverse
  simp only [trim, trimEnd, trimStart, List.length_reverse] at hend ⊢
  omega

end Calculator.Text
