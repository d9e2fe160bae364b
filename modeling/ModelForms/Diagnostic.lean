import ModelForms.Text.Pieces

/-!
# Diagnostics

Every error has a numbered code with a message template, so that what is printed can be searched
for.  A placeholder of a template is the index of an argument in braces.  The arguments are filled
in one after the other, each into the text that the previous ones have left.
-/

namespace ModelForms

/-- How severe a diagnostic is. -/
inductive Severity where
  | warning
  | error
  | message
deriving DecidableEq, Repr

/-- A message with its code and the place it is about. -/
structure Diagnostic where
  severity : Severity
  code : Nat
  /-- A field path, a position in a document, or nothing. -/
  location : String
  message : String
deriving DecidableEq, Repr

namespace Diagnostic

/-! ## Codes -/

/-- What a diagnostic with a code of its own is about. -/
inductive Topic where
  | conflictingModeFlags
  | unknownModeFlag
  | rootNotObject
  | unresolvedDefinition
  | unknownHintField
  | hintMismatch
  | cyclicModel
  | depthExceeded
  | invalidTypeExpression
  | unknownTypeName
  | duplicateModel
  | invalidModelEntry
  | invalidHint
  | missingRoot
  | invalidDocument
  | circularComposition
  | missingControl
  | unexpectedControl
  | controlKindMismatch
  | nullableControl
  | valueTypeMismatch
deriving DecidableEq, Repr

namespace Topic

/-- Every topic, in the order of their codes. -/
def all : List Topic :=
  [.conflictingModeFlags, .unknownModeFlag, .rootNotObject, .unresolvedDefinition,
    .unknownHintField, .hintMismatch, .cyclicModel, .depthExceeded, .invalidTypeExpression,
    .unknownTypeName, .duplicateModel, .invalidModelEntry, .invalidHint, .missingRoot,
    .invalidDocument, .circularComposition, .missingControl, .unexpectedControl,
    .controlKindMismatch, .nullableControl, .valueTypeMismatch]

/-- The code: modes from 1001, form trees from 2001, documents from 3001, forms from 4001. -/
def code : Topic → Nat
  | .conflictingModeFlags => 1001
  | .unknownModeFlag => 1002
  | .rootNotObject => 2001
  | .unresolvedDefinition => 2002
  | .unknownHintField => 2003
  | .hintMismatch => 2004
  | .cyclicModel => 2005
  | .depthExceeded => 2006
  | .invalidTypeExpression => 3001
  | .unknownTypeName => 3002
  | .duplicateModel => 3003
  | .invalidModelEntry => 3004
  | .invalidHint => 3005
  | .missingRoot => 3006
  | .invalidDocument => 3007
  | .circularComposition => 3008
  | .missingControl => 4001
  | .unexpectedControl => 4002
  | .controlKindMismatch => 4003
  | .nullableControl => 4004
  | .valueTypeMismatch => 4005

/-- The message template. -/
def template : Topic → String
  | .conflictingModeFlags => "Mode flags '\x7b0\x7d' and '\x7b1\x7d' cannot be combined."
  | .unknownModeFlag => "Unknown mode flag '\x7b0\x7d'."
  | .rootNotObject => "Form root must be an object model, found '\x7b0\x7d'."
  | .unresolvedDefinition => "Model '\x7b0\x7d' is referenced but never defined."
  | .unknownHintField =>
      "Hint at '\x7b0\x7d' names field '\x7b1\x7d' which does not exist on the model."
  | .hintMismatch => "Hint '\x7b0\x7d' at '\x7b1\x7d' cannot be applied to type '\x7b2\x7d'."
  | .cyclicModel =>
      "Model '\x7b0\x7d' references itself at '\x7b1\x7d' without a hint that stops the expansion."
  | .depthExceeded => "Form tree at '\x7b0\x7d' exceeds the maximum nesting depth of \x7b1\x7d."
  | .invalidTypeExpression => "Invalid type expression '\x7b0\x7d': \x7b1\x7d."
  | .unknownTypeName => "Cannot find type '\x7b0\x7d'."
  | .duplicateModel => "Model '\x7b0\x7d' is defined more than once."
  | .invalidModelEntry => "Invalid model entry at '\x7b0\x7d': \x7b1\x7d."
  | .invalidHint => "Invalid hint at '\x7b0\x7d': \x7b1\x7d."
  | .missingRoot => "No root model selected and the document defines \x7b0\x7d models."
  | .invalidDocument => "Invalid model document: \x7b0\x7d."
  | .circularComposition => "Model '\x7b0\x7d' is composed from itself."
  | .missingControl => "Control '\x7b0\x7d' is required but missing."
  | .unexpectedControl => "Control '\x7b0\x7d' is not part of the form model."
  | .controlKindMismatch => "Expected a \x7b0\x7d at '\x7b1\x7d', found a \x7b2\x7d."
  | .nullableControl => "Control at '\x7b0\x7d' must be non-nullable."
  | .valueTypeMismatch => "Value at '\x7b0\x7d' is not assignable to '\x7b1\x7d'."

end Topic

/-- The template of a code, if the code is known. -/
def template? (code : Nat) : Option String :=
  (Topic.all.find? (·.code == code)).map Topic.template

/-! ## Messages -/

/-- The placeholder of the argument at an index. -/
def placeholder (index : Nat) : List Char := '\x7b' :: (Nat.toDigits 10 index ++ ['\x7d'])

/-- Fills in the arguments from an index on, one after the other. -/
def fillFrom (index : Nat) : (args : List String) → List Char → List Char
  | [], text => text
  | arg :: rest, text =>
      fillFrom (index + 1) rest (Text.replaceAll (placeholder index) arg.toList text)

/-- A template with its arguments filled in. -/
def fill (template : String) (args : List String) : String :=
  String.ofList (fillFrom 0 args template.toList)

/-- An error with the template of its code.  An unknown code shows its first argument. -/
def ofCode (location : String) (code : Nat) (args : List String) : Diagnostic :=
  ⟨.error, code, location, fill ((template? code).getD "\x7b0\x7d") args⟩

/-- An error about a topic. -/
def about (location : String) (topic : Topic) (args : List String) : Diagnostic :=
  ⟨.error, topic.code, location, fill topic.template args⟩

/-- No two topics share a code, so an error about a topic is the error with the topic's code. -/
theorem ofCode_code (location : String) (topic : Topic) (args : List String) :
    ofCode location topic.code args = about location topic args := by
  cases topic <;> rfl

example : fill "\x7b0\x7d-\x7b1\x7d" ["\x7b1\x7d", "x"] = "x-x" := by decide +kernel

end Diagnostic

end ModelForms
