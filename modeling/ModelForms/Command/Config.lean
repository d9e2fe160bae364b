import ModelForms.Json.Message
import ModelForms.Json.Record
import ModelForms.Text.CharClass
import ModelForms.Text.Pieces

/-!
# Project configuration

A project may keep its options in a file `formtree.json`.  Fields that the configuration does not
know are passed over.  Whether the report is coloured may be written as a truth value or as a word
for one.
-/

namespace ModelForms

/-- The options of a project. -/
structure Config where
  root : Option String
  mode : Option String
  /-- The name of the output format, which may be unknown. -/
  format : Option String
  leaves : Option (List String)
  hints : Option Json
  pretty : Option Bool
deriving Repr, Inhabited

namespace Config

/-- The name of the file. -/
def fileName : String := "formtree.json"

/-- The configuration that leaves everything open. -/
def empty : Config := ⟨none, none, none, none, none, none⟩

/-- The words that mean true. -/
def trueWords : List String := ["true", "1", "yes", "on"]

/-- The words that mean false. -/
def falseWords : List String := ["false", "0", "no", "off"]

/-- The truth value that a word means.  Blanks around it and the case of its letters do not count.
The words are of ASCII and hold no `k`, so only letters of ASCII can turn into theirs. -/
def boolean? (text : String) : Option Bool :=
  let word := String.ofList (Text.lowerAscii (Text.trim CharClass.isBlank text.toList))
  if trueWords.contains word then some true
  else if falseWords.contains word then some false
  else none

/-- The truth value that a JSON value means. -/
def booleanOfJson : Json → Except JsonError Bool
  | .bool b => .ok b
  | .string text =>
      match boolean? text with
      | some b => .ok b
      | none => .error (.invalidBoolean text)
  | _ => .error (.noVariant "BoolOrString")

/-- The fields in the order of their declaration. -/
def fields : List String := ["root", "mode", "format", "leaves", "hints", "pretty"]

/-- The levels of nesting that are left inside a configuration. -/
def levels : Nat := Reader.nestingLimit - 1

/-- Reads one field. -/
def readField (name : String) (config : Config) : Reader Config := do
  if name = "root" then
    return { config with root := ← Reader.optional Reader.text }
  else if name = "mode" then
    return { config with mode := ← Reader.optional Reader.text }
  else if name = "format" then
    return { config with format := ← Reader.optional Reader.text }
  else if name = "leaves" then
    return { config with leaves := ← Reader.optional Reader.texts }
  else if name = "hints" then
    return { config with hints := ← Reader.optional (Reader.value levels) }
  else
    let pretty ← Reader.optional (do booleanOfJson (← Reader.value levels))
    return { config with pretty := pretty }

/-- The configuration that a text denotes. -/
def parse (source : String) : Except JsonError Config :=
  Reader.whole (Reader.record "struct ProjectConfig" fields false readField empty) source

/-- The text of an error of `parse`. -/
def message (error : JsonError) : String :=
  "failed to parse " ++ fileName ++ ": " ++ error.message

example : boolean? " On " = some true ∧ boolean? "y" = none := by decide +kernel

end Config

end ModelForms
