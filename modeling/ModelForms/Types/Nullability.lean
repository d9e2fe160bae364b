import ModelForms.Mode
import ModelForms.Types.Catalog
import ModelForms.Types.Composition

/-!
# Null and absence

A property carries two declared facts: whether its type includes `null`, and whether the property
may be absent, by its declaration or because its type includes `undefined`.  A mode turns each fact
into a decision of its own.

The value of a control is the declared type with `null` and `undefined` set aside, and with `null`
added again where the mode decides so.  `Catalog.strip` says what is left of a type without adding
anything to the table.
-/

namespace ModelForms

/-- What a model declares about a property. -/
structure Declared where
  /-- The type includes `null`. -/
  nullable : Bool
  /-- The property may be absent. -/
  optional : Bool
deriving DecidableEq, Repr, Inhabited

/-- What a form decides about a property. -/
structure Decided where
  /-- The value of the control may be `null`. -/
  nullable : Bool
  /-- The entry of the group may be absent. -/
  optional : Bool
deriving DecidableEq, Repr, Inhabited

/-- The decisions of a mode about a property. -/
def Mode.decide (mode : Mode) (declared : Declared) : Decided :=
  ⟨mode.nullable.decide declared.nullable, mode.optional.decide declared.optional⟩

/-- What is left of a type when `null` and `undefined` are set aside. -/
inductive Stripped where
  /-- One type: the type itself, or the one member that is left. -/
  | single (id : TypeId)
  /-- The union of the members that are left. -/
  | several (members : List TypeId)
deriving DecidableEq, Repr

namespace Catalog

/-- The members of the union at the end of a chain of aliases, or the end of the chain itself. -/
def alternatives (catalog : Catalog) (id : TypeId) : List TypeId :=
  let target := catalog.resolved id
  (catalog.types.unionMembers? target).getD [target]

/-- What is declared about a property of a type. -/
def declared (catalog : Catalog) (id : TypeId) (optional : Bool) : Declared :=
  let members := catalog.alternatives id
  ⟨members.contains TypeId.null, optional || members.contains TypeId.undefined⟩

/-- What is left of a type when `null` and `undefined` are set aside.  A type that has neither is
left alone, references included, and so is a type that has nothing else. -/
def strip (catalog : Catalog) (id : TypeId) : Stripped :=
  match catalog.types.unionMembers? (catalog.resolved id) with
  | none => .single id
  | some members =>
      let kept := members.filter (!·.isNullish)
      if kept.isEmpty || kept.length = members.length then .single id
      else match kept with
        | [m] => .single m
        | _ => .several kept

end Catalog

namespace Interning

/-- The type that is left when `null` and `undefined` are set aside. -/
def withoutNullish (models : Definitions) (id : TypeId) : Interning TypeId :=
  reading models fun catalog =>
    match catalog.strip id with
    | .single id => return id
    | .several members => union members

/-- The type of a control's value: what is left of the declared type, with `null` where it may be
null. -/
def controlType (models : Definitions) (id : TypeId) (isNullable : Bool) : Interning TypeId := do
  let stripped ← withoutNullish models id
  if isNullable then nullable stripped else return stripped

end Interning

end ModelForms
