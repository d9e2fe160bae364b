import ModelForms.Text.CharClass

/-!
# Texts shown in messages

A text that a message quotes shows most characters as themselves.  Tabs, line ends, double quotes,
backslashes and the null character get a backslash.  Characters that would not show, or would join
the character before them, are written by their hexadecimal code point in braces.
-/

namespace ModelForms.Shown

/-- A character as a message shows it. -/
def escapedChar (c : Char) : List Char :=
  if c = '\t' then ['\\', 't']
  else if c = '\r' then ['\\', 'r']
  else if c = '\n' then ['\\', 'n']
  else if c.toNat = 0 then ['\\', '0']
  else if c = '"' || c = '\\' then ['\\', c]
  else if CharClass.isPlain c then [c]
  else '\\' :: 'u' :: '\x7b' :: (Nat.toDigits 16 c.toNat ++ ['\x7d'])

/-- A text between double quotes. -/
def quoted (text : String) : String :=
  String.ofList ('"' :: (text.toList.flatMap escapedChar ++ ['"']))

example : quoted "é\u200b'" = "\"é\\u\x7b200b\x7d'\"" := by decide +kernel

end ModelForms.Shown
