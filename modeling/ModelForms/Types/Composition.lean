import ModelForms.Entries
import ModelForms.Types.Catalog

/-!
# Composed models

Models are often made from other models: without some properties, with only some, with every
property optional, or with the properties of a second model added.  Each operation takes the
properties of its operands apart, references followed, and gives an object type again.  It gives
nothing where an operand is no object.
-/

namespace ModelForms

namespace Property

/-- The properties whose names are not in a list. -/
def without (names : List String) (properties : List Property) : List Property :=
  properties.filter fun p => !names.contains p.name

/-- The properties whose names are in a list. -/
def only (names : List String) (properties : List Property) : List Property :=
  properties.filter fun p => names.contains p.name

/-- The properties, each of them optional. -/
def allOptional (properties : List Property) : List Property :=
  properties.map fun p => { p with optional := true }

/-- The properties of two objects.  One that both have keeps its place in the first and is declared
as in the second. -/
def merge (base extra : List Property) : List Property :=
  (Entries.collect ((base ++ extra).map fun p => (p.name, p))).map Prod.snd

end Property

namespace Catalog

/-- The object type with the properties that a function makes of those of a type. -/
def mapProperties (catalog : Catalog) (id : TypeId) (f : List Property → List Property) :
    Interning (Option TypeId) := do
  match catalog.properties? id with
  | some properties => return some (← Interning.object (f properties))
  | none => return none

end Catalog

namespace Interning

/-- A computation that reads the types of the table together with the models they refer to. -/
def reading {α : Type} (models : Definitions) (f : Catalog → Interning α) : Interning α := do
  f ⟨← get, models⟩

/-- `Omit`: an object type without some of its properties. -/
def without (models : Definitions) (id : TypeId) (names : List String) :
    Interning (Option TypeId) :=
  reading models fun catalog => catalog.mapProperties id (Property.without names)

/-- `Pick`: an object type with only some of its properties.  Names that it does not have are
ignored. -/
def only (models : Definitions) (id : TypeId) (names : List String) : Interning (Option TypeId) :=
  reading models fun catalog => catalog.mapProperties id (Property.only names)

/-- `Partial`: an object type with every property optional. -/
def allOptional (models : Definitions) (id : TypeId) : Interning (Option TypeId) :=
  reading models fun catalog => catalog.mapProperties id Property.allOptional

/-- `&`: an object type with the properties of a second one added. -/
def extend (models : Definitions) (base extra : TypeId) : Interning (Option TypeId) :=
  reading models fun catalog =>
    match catalog.properties? base, catalog.properties? extra with
    | some properties, some added => return some (← object (Property.merge properties added))
    | _, _ => return none

end Interning

end ModelForms
