import ModelForms.Tree.Expansion

/-!
# Deriving forms

A form is derived from a model that is an object.  The hint for the root may say nothing, ask for a
group or describe the fields.  The mode decides which entries may be absent and which values may be
null.  Deriving adds types to the table, those of the controls' values among them.
-/

namespace ModelForms

namespace DerivedForm

/-- Refuses a root that is no object, or that is to be no group. -/
def checkRoot (catalog : Catalog) (hint : Hint) (root : TypeId) : Except DerivationError Unit :=
  match hint.kind? with
  | some .control => .error (.hintMismatch .root .control (catalog.typeText root))
  | some .array => .error (.hintMismatch .root .array (catalog.typeText root))
  | _ =>
      match catalog.classify root with
      | .object _ => .ok ()
      | .unresolved definition =>
          .error (.unresolvedModel (catalog.models.describe definition) .root)
      | _ => .error (.rootNotObject (catalog.typeText root))

/-- The outermost group of the form over a model, and the state that its expansion ends in. -/
def expand (models : Definitions) (mode : Mode) (hint : Hint) (model : TypeId)
    (types : TypeTable) : Except DerivationError TreeNode × ExpansionState :=
  match checkRoot ⟨types, models⟩ hint model with
  | .error error => (.error error, .start types)
  | .ok () =>
      (Expansion.node ⟨models, mode⟩ WalkKind.expansion.maxDepth .root model hint false).run.run
        (.start types)

/-- The form over a model. -/
def derive (models : Definitions) (mode : Mode) (hint : Hint) (model : TypeId) :
    Interning (Except DerivationError DerivedForm) := fun types =>
  let (result, state) := expand models mode hint model types
  (result.map fun root => ⟨root, mode, model⟩, state.types)

end DerivedForm

end ModelForms
