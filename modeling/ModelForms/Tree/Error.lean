import ModelForms.Diagnostic
import ModelForms.FieldPath
import ModelForms.Hint

/-!
# Errors of derivations

Why no form can be derived from a model.  Types stand in these errors as they are written.
-/

namespace ModelForms

/-- Why a model has no form. -/
inductive DerivationError where
  /-- The root is no object. -/
  | rootNotObject (found : String)
  /-- A reference leads nowhere. -/
  | unresolvedModel (name : String) (path : FieldPath)
  /-- A hint speaks of a field that the model does not have. -/
  | unknownHintField (path : FieldPath) (field : String)
  /-- A position cannot become what its hint asks for. -/
  | hintMismatch (path : FieldPath) (hint : NodeKind) (found : String)
  /-- A model contains itself, and no hint says how far it is to be expanded. -/
  | cyclicModel (name : String) (path : FieldPath)
  /-- The form is nested more deeply than it may be, or it has too many groups. -/
  | tooDeep (path : FieldPath) (maxDepth : Nat)
deriving DecidableEq, Repr

namespace DerivationError

/-- The position that an error is about. -/
def path? : DerivationError → Option FieldPath
  | .rootNotObject _ => none
  | .unresolvedModel _ path | .unknownHintField path _ | .hintMismatch path _ _
  | .cyclicModel _ path | .tooDeep path _ => some path

/-- The text of an error. -/
def message : DerivationError → String
  | .rootNotObject found => "form root must be an object model, found '" ++ found ++ "'"
  | .unresolvedModel name path =>
      "model '" ++ name ++ "' referenced at '" ++ path.text ++ "' is never defined"
  | .unknownHintField path field =>
      "hint at '" ++ path.text ++ "' names field '" ++ field
        ++ "' which does not exist on the model"
  | .hintMismatch path hint found =>
      "hint '" ++ hint.name ++ "' at '" ++ path.text ++ "' cannot be applied to type '" ++ found
        ++ "'"
  | .cyclicModel name path =>
      "model '" ++ name ++ "' references itself at '" ++ path.text
        ++ "' without a hint that stops the expansion"
  | .tooDeep path maxDepth =>
      "form tree at '" ++ path.text ++ "' exceeds the maximum nesting depth of "
        ++ toString maxDepth

/-- The error as a diagnostic. -/
def diagnostic (error : DerivationError) : Diagnostic :=
  let location := (error.path?.map FieldPath.text).getD ""
  match error with
  | .rootNotObject found => .about location .rootNotObject [found]
  | .unresolvedModel name _ => .about location .unresolvedDefinition [name]
  | .unknownHintField path field => .about location .unknownHintField [path.text, field]
  | .hintMismatch path hint found => .about location .hintMismatch [hint.name, path.text, found]
  | .cyclicModel name path => .about location .cyclicModel [name, path.text]
  | .tooDeep path maxDepth => .about location .depthExceeded [path.text, toString maxDepth]

end DerivationError

end ModelForms
