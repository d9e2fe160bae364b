import ModelForms.Command.Options
import ModelForms.Document.Lowering
import ModelForms.Form.Conformance
import ModelForms.Tree.Derive
import ModelForms.Tree.Text

/-!
# Renderings of documents

A document is rendered as the form over its root model, in one of three formats: the type of the
form, the type of its value, or both with the whole tree as JSON.  A value can be checked against
the form at the same time.
-/

namespace ModelForms

/-- A rendered document. -/
structure Rendering where
  output : String
  /-- The mismatches of the value that was checked. -/
  mismatches : List Diagnostic
deriving DecidableEq, Repr

namespace Rendering

/-- A form in an output format. -/
def formText (catalog : Catalog) (format : OutputFormat) (tree : DerivedForm) : String :=
  let (value, types) := tree.valueType catalog.types
  let catalog := { catalog with types := types }
  match format with
  | .ts => tree.root.text catalog.typeText
  | .value => catalog.typeText value
  | .json => (tree.toJson catalog.typeText value).pretty

/-- The mode of a form: that of the options, that of the document, or the standard mode. -/
def mode (options : Options) (lowered : Lowered) : Except Diagnostic Mode :=
  match options.mode with
  | some text => (Mode.parse text).mapError ModeError.diagnostic
  | none => .ok (lowered.mode.getD .standard)

/-- The hints of a form: those of the options, or those of the document. -/
def hints (options : Options) (lowered : Lowered) : Except Diagnostic Hint :=
  match options.hints with
  | some value =>
      (Hint.ofJson (Location.root.child "hints") value).mapError fun error =>
        (DocumentError.invalidHint error).diagnostic
  | none => .ok lowered.hints

/-- The rendering of a document that is lowered, or the first problem with its form. -/
def ofLowered (options : Options) (value : Option Json) (lowered : Lowered) :
    Except Diagnostic Rendering := do
  let mode ← mode options lowered
  let hints ← hints options lowered
  let root ← (lowered.rootModel options.root).mapError DocumentError.diagnostic
  let models := lowered.catalog.models
  let (result, types) := DerivedForm.derive models mode hints root lowered.catalog.types
  let tree ← result.mapError DerivationError.diagnostic
  let catalog : Catalog := ⟨types, models⟩
  return {
    output := formText catalog options.format tree
    mismatches := (value.map (Conformance.mismatchesOfValue catalog tree)).getD [] }

/-- The rendering of the document that a text denotes, or the first problem with it. -/
def ofSource (source : String) (options : Options) (value : Option Json) :
    Except Diagnostic Rendering := do
  let document ← (Document.parse source).mapError fun error =>
    (DocumentError.invalidDocument error).diagnostic
  let document := { document with leaves := Options.addNew document.leaves options.leaves }
  let lowered ← document.lower.mapError DocumentError.diagnostic
  ofLowered options value lowered

end Rendering

end ModelForms
