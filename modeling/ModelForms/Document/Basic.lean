import ModelForms.Hint
import ModelForms.Json.Message
import ModelForms.Json.Record
import ModelForms.Mode

/-!
# Model documents

A document declares leaf types and models, and it may choose a root model, grouping hints and a
mode.  A model is an object of properties or a type expression; which of the two, and whether it is
a valid one, is not decided here.  A mode is an expression or a list of flags.

`Document.toJson` is the JSON that a document stands for.
-/

namespace ModelForms

/-- A mode as it is written in a document. -/
inductive WrittenMode where
  | expression (text : String)
  | flags (words : List String)
deriving DecidableEq, Repr

/-- The mode that is meant.  The words of a list are taken as they are. -/
def WrittenMode.mode : WrittenMode → Except ModeError Mode
  | .expression text => Mode.parse text
  | .flags words => do Mode.ofFlags (← ModeFlags.ofWords words)

/-- A model document. -/
structure Document where
  /-- The names of leaf types. -/
  leaves : List String
  /-- The models, in order. -/
  models : Entries Json
  root : Option String
  hints : Option Json
  mode : Option WrittenMode
deriving DecidableEq, Repr, Inhabited

namespace Document

/-- The document that declares nothing. -/
def empty : Document := ⟨[], [], none, none, none⟩

/-! ## JSON -/

/-- A mode as JSON. -/
def modeJson : WrittenMode → Json
  | .expression text => .string text
  | .flags words => .array (words.map .string)

/-- The JSON that a document stands for.  Only the models are there in any case. -/
def toJson (document : Document) : Json :=
  .object (
    (if document.leaves.isEmpty then [] else [("leaves", .array (document.leaves.map .string))])
    ++ [("models", .object document.models)]
    ++ (document.root.map fun name => ("root", Json.string name)).toList
    ++ (document.hints.map fun hints => ("hints", hints)).toList
    ++ (document.mode.map fun mode => ("mode", modeJson mode)).toList)

/-- The fields of a document in the order of their declaration. -/
def fields : List String := ["leaves", "models", "root", "hints", "mode"]

/-- The levels of nesting that are left inside a document. -/
def levels : Nat := Reader.nestingLimit - 1

/-- The mode that a JSON value specifies. -/
def modeOfJson : Json → Except JsonError WrittenMode
  | .string text => .ok (.expression text)
  | .array items =>
      match items.mapM fun item => match item with
        | .string word => some word
        | _ => none with
      | some words => .ok (.flags words)
      | none => .error (.noVariant "ModeSpec")
  | _ => .error (.noVariant "ModeSpec")

/-- Reads one field of a document. -/
def readField (name : String) (document : Document) : Reader Document := do
  if name = "leaves" then
    return { document with leaves := ← Reader.texts }
  else if name = "models" then
    return { document with models := ← Reader.valueMap (levels - 1) }
  else if name = "root" then
    return { document with root := ← Reader.optional Reader.text }
  else if name = "hints" then
    return { document with hints := ← Reader.optional (Reader.value levels) }
  else
    let mode ← Reader.optional (do modeOfJson (← Reader.value levels))
    return { document with mode := mode }

/-- The document that a text denotes. -/
def parse (source : String) : Except JsonError Document :=
  Reader.whole (Reader.record "struct ModelDocument" fields true readField empty) source

/-! ## Choices -/

/-- The hints of a document. -/
def hint (document : Document) : Except HintError Hint :=
  match document.hints with
  | some value => Hint.ofJson (Location.root.child "hints") value
  | none => .ok .unspecified

/-- The mode of a document, if it has one. -/
def modeChoice (document : Document) : Except ModeError (Option Mode) :=
  match document.mode with
  | some spec => spec.mode.map some
  | none => .ok none

/-- The root that is chosen by name: an explicit name, the one of the document, or the only model.
Without any of them the number of models is the answer. -/
def chooseRoot (explicit declared : Option String) (models : List String) : Except Nat String :=
  match explicit.or declared with
  | some name => .ok name
  | none =>
      match models with
      | [only] => .ok only
      | _ => .error models.length

/-- The name of the root model. -/
def chosenRoot (document : Document) (explicit : Option String) : Except Nat String :=
  chooseRoot explicit document.root document.models.keys

end Document

end ModelForms
