import ModelForms.Tree.Error
import ModelForms.Types.Nullability
import ModelForms.Types.Term

/-!
# What a position becomes

The type of a position, with `null` and `undefined` set aside, and the hint for it decide together
what stands there in the form.

1. A hint for a control always wins.
2. A date or a leaf is a control.  A hint for a group or array has no effect on it.
3. An array becomes an array and an object becomes a group.
4. Everything else is a control: primitives, literals, `unknown`, and unions that have several
   members left.  A hint for a group or array is an error there, and so is one that asks for the
   wrong of the two.
-/

namespace ModelForms

/-- What a position becomes. -/
inductive NodePlan where
  | control
  /-- A group with a member for each property. -/
  | group (properties : List Property)
  /-- An array of elements of the declared type. -/
  | array (element : TypeId)
deriving DecidableEq, Repr

namespace Catalog

/-- What a position with the given type becomes under a hint.  The type is what is left of the
declared one when `null` and `undefined` are set aside. -/
def plan (catalog : Catalog) (stripped : TypeId) (hint : Hint) (path : FieldPath) :
    Except DerivationError NodePlan :=
  match hint.kind? with
  | some .control => .ok .control
  | requested =>
      match catalog.classify stripped, requested with
      | .unresolved definition, _ =>
          .error (.unresolvedModel (catalog.models.describe definition) path)
      | .atomic _, _ => .ok .control
      | .array element, none | .array element, some .array => .ok (.array element)
      | .object properties, none | .object properties, some .group => .ok (.group properties)
      | _, some kind => .error (.hintMismatch path kind (catalog.typeText stripped))
      | _, none => .ok .control

/-- The model that a declared type names, looked for over at most `depth` types.  Of a union, the
one member that is neither `null` nor `undefined` is asked, if there is exactly one. -/
def namedModelWithin (catalog : Catalog) : (depth : Nat) → TypeId → Option ModelId
  | 0, _ => none
  | depth + 1, declared =>
      match catalog.types.lookup declared with
      | some (.reference definition) => some definition
      | some (.union members) =>
          match members.filter (!·.isNullish) with
          | [only] => catalog.namedModelWithin depth only
          | _ => none
      | _ => none

/-- The model that a declared type names, `null` and `undefined` aside.  The declared type is asked
and not what is left of it: a model that may be null would be taken apart before its name is seen.
A type that does not contain itself leads over each entry of the table at most once. -/
def namedModel? (catalog : Catalog) (declared : TypeId) : Option ModelId :=
  catalog.namedModelWithin (catalog.types.size + 1) declared

end Catalog

end ModelForms
