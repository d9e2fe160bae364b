import ModelForms.Types.Table

/-!
# Named models

Models refer to each other by name, which is what makes recursive models possible.  A name is
reserved first and gets its body later, so a reference to a model may come before the model.  The
handles count from one in the order of reservations, and reserving a name again gives the handle
that it has.

The store is the list of the reserved names with the bodies set so far.  `find?_reserve` and
`name?_reserve` say that a reserved name and its handle lead to each other.
-/

namespace ModelForms

namespace ModelId

/-- Whether a handle may be given out at all. -/
def isValid (definition : ModelId) : Bool := definition.index ≠ 0

end ModelId

/-- A reserved name, and the body that was last set for it. -/
structure Definition where
  name : String
  body : Option TypeId
deriving DecidableEq, Repr

/-- The named models. -/
structure Definitions where
  /-- The definitions in the order of their handles. -/
  entries : List Definition
deriving DecidableEq, Repr

namespace Definitions

/-- The store of no models. -/
def empty : Definitions := ⟨[]⟩

instance : Inhabited Definitions := ⟨empty⟩

/-- The number of reserved names. -/
def size (defs : Definitions) : Nat := defs.entries.length

/-- The definition of a handle. -/
def get? (defs : Definitions) (definition : ModelId) : Option Definition :=
  match definition.index with
  | 0 => none
  | i + 1 => defs.entries[i]?

/-- The name of a handle. -/
def name? (defs : Definitions) (definition : ModelId) : Option String :=
  (defs.get? definition).map Definition.name

/-- The body of a handle, if it is set. -/
def body? (defs : Definitions) (definition : ModelId) : Option TypeId :=
  (defs.get? definition).bind Definition.body

/-- The handle of a name. -/
def find? (defs : Definitions) (name : String) : Option ModelId :=
  (defs.entries.findIdx? (·.name == name)).map fun i => ⟨i + 1⟩

/-- Whether a handle was given out. -/
def contains (defs : Definitions) (definition : ModelId) : Bool := (defs.get? definition).isSome

/-- Whether a handle has a body. -/
def isDefined (defs : Definitions) (definition : ModelId) : Bool := (defs.body? definition).isSome

/-- The handle of a name, which is reserved if it is new. -/
def reserve (name : String) (defs : Definitions) : ModelId × Definitions :=
  match defs.find? name with
  | some definition => (definition, defs)
  | none => (⟨defs.size + 1⟩, ⟨defs.entries ++ [⟨name, none⟩]⟩)

/-- Sets the body of a handle, and says whether the handle was given out. -/
def define (definition : ModelId) (body : TypeId) (defs : Definitions) : Bool × Definitions :=
  if defs.contains definition then
    (true, ⟨defs.entries.modify (definition.index - 1) fun entry => { entry with body := body }⟩)
  else (false, defs)

/-- Reserves a name and sets its body. -/
def register (name : String) (body : TypeId) (defs : Definitions) : ModelId × Definitions :=
  let (definition, defs) := defs.reserve name
  (definition, (defs.define definition body).2)

/-- The name of a handle as it stands in messages. -/
def describe (defs : Definitions) (definition : ModelId) : String :=
  (defs.name? definition).getD ("#" ++ toString definition.index)

/-! ## Names and handles -/

theorem name?_eq_some_of_find? {defs : Definitions} {name : String} {definition : ModelId}
    (h : defs.find? name = some definition) : defs.name? definition = some name := by
  obtain ⟨i, hi, rfl⟩ := Option.map_eq_some_iff.1 h
  obtain ⟨hlt, hp, _⟩ := List.findIdx?_eq_some_iff_getElem.1 hi
  simp only [name?, get?]
  rw [List.getElem?_eq_getElem hlt]
  simpa using hp

/-- The handle that a name is given leads back to the name. -/
theorem name?_reserve (defs : Definitions) (name : String) :
    (defs.reserve name).2.name? (defs.reserve name).1 = some name := by
  unfold reserve
  split
  · rename_i h; exact name?_eq_some_of_find? h
  · simp [name?, get?, size]

/-- A reserved name leads to the handle it was given. -/
theorem find?_reserve (defs : Definitions) (name : String) :
    (defs.reserve name).2.find? name = some (defs.reserve name).1 := by
  unfold reserve
  split
  · rename_i h; exact h
  · rename_i h
    simp only [find?, Option.map_eq_none_iff] at h
    simp [find?, List.findIdx?_append, h, List.findIdx?_cons, size]

end Definitions

end ModelForms
