import ModelForms.Json.Basic

/-!
# JSON text

A value is written on one line without spaces (`Json.compact`) or over several lines with an
indentation of two spaces a level (`Json.pretty`).  Of the characters in a string only the quote,
the backslash and those below U+0020 are escaped.
-/

namespace ModelForms

namespace Json

/-- The lower-case hexadecimal digit of a number below sixteen. -/
def hexDigit (n : Nat) : Char := Nat.digitChar n

/-- A character as it is written inside a string. -/
def escapedChar (c : Char) : List Char :=
  if c = '"' then ['\\', '"']
  else if c = '\\' then ['\\', '\\']
  else if c = '\n' then ['\\', 'n']
  else if c = '\r' then ['\\', 'r']
  else if c = '\t' then ['\\', 't']
  else if c.toNat = 8 then ['\\', 'b']
  else if c.toNat = 12 then ['\\', 'f']
  else if c.toNat < 32 then
    ['\\', 'u', '0', '0', hexDigit (c.toNat / 16), hexDigit (c.toNat % 16)]
  else [c]

/-- A string between quotes. -/
def quoted (text : String) : String :=
  String.ofList ('"' :: (text.toList.flatMap escapedChar ++ ['"']))

/-! ## One line -/

mutual

/-- The text of a value on one line. -/
def compact : Json → String
  | .null => "null"
  | .bool b => if b then "true" else "false"
  | .number n => n.text
  | .string s => quoted s
  | .array items => "[" ++ compactItems true items ++ "]"
  | .object members => "\x7b" ++ compactMembers true members ++ "\x7d"
termination_by structural value => value

/-- The elements of an array, with a comma before each but the first. -/
def compactItems (first : Bool) : List Json → String
  | [] => ""
  | x :: rest => (if first then "" else ",") ++ compact x ++ compactItems false rest
termination_by structural items => items

/-- The members of an object, with a comma before each but the first. -/
def compactMembers (first : Bool) : List (String × Json) → String
  | [] => ""
  | (key, x) :: rest =>
      (if first then "" else ",") ++ quoted key ++ ":" ++ compact x ++ compactMembers false rest
termination_by structural members => members

end

/-! ## Several lines -/

/-- The start of a line at a level of nesting. -/
def newline (level : Nat) : String := String.ofList ('\n' :: List.replicate (2 * level) ' ')

mutual

/-- The text of a value over several lines, standing at a level of nesting. -/
def prettyAt (level : Nat) : Json → String
  | .null => "null"
  | .bool b => if b then "true" else "false"
  | .number n => n.text
  | .string s => quoted s
  | .array items =>
      if items.isEmpty then "[]"
      else "[" ++ prettyItems (level + 1) true items ++ newline level ++ "]"
  | .object members =>
      if members.isEmpty then "\x7b\x7d"
      else "\x7b" ++ prettyMembers (level + 1) true members ++ newline level ++ "\x7d"
termination_by structural value => value

/-- The elements of an array, a line for each. -/
def prettyItems (level : Nat) (first : Bool) : List Json → String
  | [] => ""
  | x :: rest =>
      (if first then "" else ",") ++ newline level ++ prettyAt level x
        ++ prettyItems level false rest
termination_by structural items => items

/-- The members of an object, a line for each. -/
def prettyMembers (level : Nat) (first : Bool) : List (String × Json) → String
  | [] => ""
  | (key, x) :: rest =>
      (if first then "" else ",") ++ newline level ++ quoted key ++ ": " ++ prettyAt level x
        ++ prettyMembers level false rest
termination_by structural members => members

end

/-- The text of a value over several lines. -/
def pretty (value : Json) : String := prettyAt 0 value

example : compact (.object [("a", .array [.null, .bool true]), ("b", .string "x\n")])
    = "\x7b\"a\":[null,true],\"b\":\"x\\n\"\x7d" := by decide +kernel
example : pretty (.array [.object []]) = "[\n  \x7b\x7d\n]" := by decide +kernel

end Json

end ModelForms
