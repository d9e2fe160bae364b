import ModelForms.Bounds.Guard
import ModelForms.Types.Definitions

/-!
# Catalogs

A catalog is a type table together with the models that its types refer to.  Reading a type means
following references first: a model may be another model's name, and so on along a chain of aliases
that ends at a type which is no reference.  A chain that comes back to a model, that is longer than
the bound or that meets a model without a body leads nowhere.

`Catalog.classify` says what a type is after that.
-/

namespace ModelForms

/-- Types and the models that they refer to. -/
structure Catalog where
  types : TypeTable
  models : Definitions
deriving DecidableEq, Repr, Inhabited

namespace Catalog

/-! ## Aliases -/

/-- One step along a chain of aliases, given how the chain is followed from the next type on.  The
model stays entered until the rest of the chain is done. -/
def followStep (catalog : Catalog)
    (onwards : TypeId → StateM (Guard ModelId) (Except ModelId TypeId)) (id : TypeId) :
    StateM (Guard ModelId) (Except ModelId TypeId) := do
  match catalog.types.referenced? id with
  | none => return .ok id
  | some definition =>
      match ← modifyGet fun (guard : Guard ModelId) => guard.enter definition with
      | .entered => do
          let result ← match catalog.models.body? definition with
            | some body => onwards body
            | none => pure (.error definition)
          modify fun (guard : Guard ModelId) => guard.leave definition
          return result
      | _ => return .error definition

/-- Follows a chain of aliases over at most `levels` models.  The guard allows no more, so the
answer where none are left does not matter. -/
def follow (catalog : Catalog) :
    (levels : Nat) → TypeId → StateM (Guard ModelId) (Except ModelId TypeId)
  | 0 => catalog.followStep fun id => pure (.ok id)
  | levels + 1 => catalog.followStep (catalog.follow levels)

/-- The end of the chain of aliases that starts at a type, or the model at which the chain breaks.
-/
def resolve (catalog : Catalog) (id : TypeId) : Except ModelId TypeId :=
  (catalog.follow WalkKind.aliases.maxDepth id (Guard.forWalk .aliases)).1

/-- The end of the chain of aliases, or the type itself where the chain breaks. -/
def resolved (catalog : Catalog) (id : TypeId) : TypeId :=
  match catalog.resolve id with
  | .ok target => target
  | .error _ => id

/-! ## Kinds of type -/

/-- What a type is once references are followed. -/
inductive TypeClass where
  | primitive (k : Intrinsic)
  /-- An object that is never taken apart: a leaf with its name, or a date. -/
  | atomic (name : Option String)
  | literal (value : Literal)
  | object (properties : List Property)
  | array (element : TypeId)
  | union (members : List TypeId)
  /-- A reference that leads nowhere, and the model at which it breaks. -/
  | unresolved (definition : ModelId)
deriving DecidableEq, Repr

/-- Whether a type is an object that is never taken apart. -/
def TypeClass.isAtomic : TypeClass → Bool
  | .atomic _ => true
  | _ => false

/-- What an entry is.  An id without an entry is taken for `unknown`. -/
def classOfEntry : Option TypeEntry → TypeClass
  | some (.intrinsic .date) => .atomic none
  | some (.intrinsic k) => .primitive k
  | some (.leaf name) => .atomic (some name)
  | some (.literal value) => .literal value
  | some (.object properties) => .object properties
  | some (.array element) => .array element
  | some (.union members) => .union members
  | some (.reference definition) => .unresolved definition
  | none => .primitive .unknown

/-- What a type is once references are followed. -/
def classify (catalog : Catalog) (id : TypeId) : TypeClass :=
  match catalog.resolve id with
  | .ok target => classOfEntry (catalog.types.lookup target)
  | .error definition => .unresolved definition

/-- The properties of an object type. -/
def properties? (catalog : Catalog) (id : TypeId) : Option (List Property) :=
  match catalog.classify id with
  | .object properties => some properties
  | _ => none

end Catalog

end ModelForms
