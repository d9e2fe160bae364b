/-!
# Quoted texts

A text is quoted so that it stands on one line and in ASCII.  Tabs, line ends, quotes and
backslashes get a backslash, and every other character outside the printable ASCII range is written
by its hexadecimal code point in braces.
-/

namespace ModelForms.Quoted

/-- A character as it is written between quotes. -/
def escapedChar (c : Char) : List Char :=
  if c = '\t' then ['\\', 't']
  else if c = '\r' then ['\\', 'r']
  else if c = '\n' then ['\\', 'n']
  else if c = '\'' || c = '"' || c = '\\' then ['\\', c]
  else if 0x20 ≤ c.toNat && c.toNat ≤ 0x7E then [c]
  else '\\' :: 'u' :: '\x7b' :: (Nat.toDigits 16 c.toNat ++ ['\x7d'])

/-- A text between double quotes. -/
def encode (text : List Char) : List Char := '"' :: (text.flatMap escapedChar ++ ['"'])

/-- A printable ASCII character that is no quote and no backslash stands for itself. -/
theorem escapedChar_of_plain {c : Char} (low : 0x20 ≤ c.toNat) (high : c.toNat ≤ 0x7E)
    (single : c ≠ '\'') (double : c ≠ '"') (backslash : c ≠ '\\') : escapedChar c = [c] := by
  have tab : c ≠ '\t' := by rintro rfl; exact absurd low (by decide)
  have ret : c ≠ '\r' := by rintro rfl; exact absurd low (by decide)
  have line : c ≠ '\n' := by rintro rfl; exact absurd low (by decide)
  simp [escapedChar, *]

example : encode "a\"é".toList = "\"a\\\"\\u\x7be9\x7d\"".toList := by decide +kernel

end ModelForms.Quoted
