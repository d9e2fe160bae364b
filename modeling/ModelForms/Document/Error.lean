import ModelForms.Document.Basic
import ModelForms.Expr.Parser

/-!
# Errors of documents

Why a document gives no types.  An error about a value of the document carries the location of the
value.
-/

namespace ModelForms

/-- Why a type expression is not acceptable. -/
inductive ExprFault where
  /-- It cannot be parsed. -/
  | parse (error : ParseError)
  /-- An operand of `&` is no object. -/
  | intersectionOperand
  /-- There is nothing between the ampersands. -/
  | emptyIntersection
  /-- A generic type has another number of arguments. -/
  | argumentCount (name : String) (expected found : Nat)
  /-- The operand of a generic type is no object. -/
  | operand (name : String)
  /-- Arguments follow a name that takes none. -/
  | unknownGeneric (name : String)
  /-- Keys are not written as string literals. -/
  | keys
deriving DecidableEq, Repr

/-- The text of the fault. -/
def ExprFault.message : ExprFault → String
  | .parse error => error.text
  | .intersectionOperand => "'&' requires object types"
  | .emptyIntersection => "empty intersection"
  | .argumentCount name expected found =>
      "'" ++ name ++ "' expects " ++ toString expected ++ " type argument(s), found "
        ++ toString found
  | .operand name => "'" ++ name ++ "' requires an object type"
  | .unknownGeneric name => "unknown generic type '" ++ name ++ "'"
  | .keys => "keys must be string literals"

/-- Why a value of a document describes no type. -/
inductive EntryFault where
  /-- Models are composed from each other over too many steps. -/
  | composedTooDeeply
  /-- The value is neither a text nor an object. -/
  | notAnEntry (value : Json)
  /-- The members of a union are not given as an array. -/
  | unionMembers
  | unknownDirective (name : String)
  | emptyPropertyName
  | duplicateProperty (name : String)
deriving Repr

/-- The text of the fault. -/
def EntryFault.message : EntryFault → String
  | .composedTooDeeply => "models are composed too deeply"
  | .notAnEntry value =>
      "expected a type expression or an object, found '" ++ value.compact ++ "'"
  | .unionMembers => "'$union' expects an array of members"
  | .unknownDirective name => "unknown directive '" ++ name ++ "'"
  | .emptyPropertyName => "property name is empty"
  | .duplicateProperty name => "property '" ++ name ++ "' is declared more than once"

/-- Why a document gives no types. -/
inductive DocumentError where
  /-- The text is no document. -/
  | invalidDocument (error : JsonError)
  | invalidExpression (location : Location) (text : String) (fault : ExprFault)
  | unknownName (location : Location) (name : String)
  /-- A name is declared twice, or it has a meaning already. -/
  | duplicateModel (name : String)
  | invalidEntry (location : Location) (fault : EntryFault)
  | invalidHint (error : HintError)
  /-- No root is chosen, and the document has `count` models. -/
  | missingRoot (count : Nat)
  /-- A model is composed from itself. -/
  | circularComposition (name : String)
  | mode (error : ModeError)
deriving Repr

namespace DocumentError

/-- The text of an error. -/
def message : DocumentError → String
  | .invalidDocument error => "invalid model document: " ++ error.message
  | .invalidExpression location text fault =>
      location.text ++ ": invalid type expression '" ++ text ++ "': " ++ fault.message
  | .unknownName location name => location.text ++ ": cannot find type '" ++ name ++ "'"
  | .duplicateModel name => "model '" ++ name ++ "' is defined more than once"
  | .invalidEntry location fault => location.text ++ ": " ++ fault.message
  | .invalidHint error => error.location.text ++ ": invalid hint: " ++ error.fault.message
  | .missingRoot count =>
      "no root model selected and the document defines " ++ toString count ++ " models"
  | .circularComposition name => "model '" ++ name ++ "' is composed from itself"
  | .mode error => error.message

/-- The error as a diagnostic. -/
def diagnostic : DocumentError → Diagnostic
  | .invalidDocument error => .about "" .invalidDocument [error.message]
  | .invalidExpression location text fault =>
      .about location.text .invalidTypeExpression [text, fault.message]
  | .unknownName location name => .about location.text .unknownTypeName [name]
  | .duplicateModel name => .about ("/models/" ++ name) .duplicateModel [name]
  | .invalidEntry location fault =>
      .about location.text .invalidModelEntry [location.text, fault.message]
  | .invalidHint error =>
      .about error.location.text .invalidHint [error.location.text, error.fault.message]
  | .missingRoot count => .about "/root" .missingRoot [toString count]
  | .circularComposition name => .about ("/models/" ++ name) .circularComposition [name]
  | .mode error => error.diagnostic

end DocumentError

end ModelForms
