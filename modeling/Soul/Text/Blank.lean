/-!
# Blanks and line ends

Blanks separate tokens and have no other meaning. They are the characters
that Unicode 14 treats as white space, together with the four separators
`U+001C` to `U+001F`. Of the line breaks among them only the line feed starts
a new line; a comment or an unclosed string ends at a line feed or a carriage
return.
-/

namespace Soul.Text

/-- A blank: a character that separates tokens. -/
def isBlank (c : Char) : Bool :=
  let n := c.toNat
  (9 ≤ n && n ≤ 13) || (28 ≤ n && n ≤ 32) || n == 0x85 || n == 0xA0 || n == 0x1680 ||
    (0x2000 ≤ n && n ≤ 0x200A) || n == 0x2028 || n == 0x2029 || n == 0x202F || n == 0x205F ||
    n == 0x3000

/-- A character that ends a line comment or an unclosed string. -/
def isLineEnd (c : Char) : Bool := c == '\n' || c == '\r'

theorem isBlank_newline : isBlank '\n' = true := rfl

theorem isBlank_return : isBlank '\r' = true := rfl

/-- Both line ends are blanks. -/
theorem isBlank_of_isLineEnd {c : Char} (h : isLineEnd c = true) : isBlank c = true := by
  simp only [isLineEnd, Bool.or_eq_true, beq_iff_eq] at h
  rcases h with rfl | rfl <;> rfl

end Soul.Text
