import ModelForms.Types.Definitions

/-!
# How named models are stored

The named models are stored in two maps and a counter.  One map leads from a handle to its
definition, the other one from a name to its handle, and the counter is the number of the handle
that is given out next.  A number has 32 bits, so the counter starts over after the largest one.

A name is stored as what stands for it, which may be the text or the number that a register of names
has for it.  `DefinitionStorage.models` are the named models that are stored, given the text of each
name.
-/

namespace ModelForms

/-- A reserved name, and the body that was last set for it. -/
structure StoredDefinition (ν : Type) where
  name : ν
  body : Option TypeId
deriving DecidableEq, Repr

/-- A definition with another body. -/
def StoredDefinition.withBody {ν : Type} (body : TypeId) (entry : StoredDefinition ν) :
    StoredDefinition ν :=
  { entry with body := some body }

/-- A definition with the text of its name. -/
def StoredDefinition.named {ν : Type} (text : ν → String) (entry : StoredDefinition ν) :
    Definition :=
  ⟨text entry.name, entry.body⟩

/-- Named models as they are stored. -/
structure DefinitionStorage (ν : Type) where
  /-- The definitions by their handles, with what was added last in front. -/
  definitions : List (ModelId × StoredDefinition ν)
  /-- The handles by their names, with what was added last in front. -/
  index : List (ν × ModelId)
  /-- The number of the handle that is given out next. -/
  next : UInt32
deriving DecidableEq, Repr

namespace DefinitionStorage

variable {ν : Type}

/-- The storage of no models. -/
def empty : DefinitionStorage ν := ⟨[], [], 1⟩

instance : Inhabited (DefinitionStorage ν) := ⟨empty⟩

/-- The number of reserved names. -/
def size (storage : DefinitionStorage ν) : Nat := storage.definitions.length

/-- Whether no name is reserved. -/
def isEmpty (storage : DefinitionStorage ν) : Bool := storage.definitions.isEmpty

/-- The definition of a handle. -/
def get? (storage : DefinitionStorage ν) (definition : ModelId) : Option (StoredDefinition ν) :=
  storage.definitions.lookup definition

/-- The name of a handle. -/
def name? (storage : DefinitionStorage ν) (definition : ModelId) : Option ν :=
  (storage.get? definition).map StoredDefinition.name

/-- The body of a handle, if it is set. -/
def body? (storage : DefinitionStorage ν) (definition : ModelId) : Option TypeId :=
  (storage.get? definition).bind StoredDefinition.body

/-- Whether a handle was given out. -/
def contains (storage : DefinitionStorage ν) (definition : ModelId) : Bool :=
  (storage.get? definition).isSome

/-- Whether a handle has a body. -/
def isDefined (storage : DefinitionStorage ν) (definition : ModelId) : Bool :=
  (storage.body? definition).isSome

/-- Sets the body of a handle, and says whether the handle was given out. -/
def define (definition : ModelId) (body : TypeId) (storage : DefinitionStorage ν) :
    Bool × DefinitionStorage ν :=
  if storage.contains definition then
    let definitions := storage.definitions.map fun entry =>
      if entry.1 = definition then (entry.1, entry.2.withBody body) else entry
    (true, { storage with definitions := definitions })
  else (false, storage)

variable [DecidableEq ν]

/-- The handle of a name. -/
def find? (storage : DefinitionStorage ν) (name : ν) : Option ModelId := storage.index.lookup name

/-- The handle of a name, which is reserved if it is new. -/
def reserve (name : ν) (storage : DefinitionStorage ν) : ModelId × DefinitionStorage ν :=
  match storage.find? name with
  | some definition => (definition, storage)
  | none =>
      let definition : ModelId := ⟨storage.next.toNat⟩
      (definition,
        { definitions := (definition, ⟨name, none⟩) :: storage.definitions
          index := (name, definition) :: storage.index
          next := storage.next + 1 })

/-- Reserves a name and sets its body. -/
def register (name : ν) (body : TypeId) (storage : DefinitionStorage ν) :
    ModelId × DefinitionStorage ν :=
  let (definition, storage) := storage.reserve name
  (definition, (storage.define definition body).2)

/-- The named models that are stored, given the texts of their names. -/
def models (text : ν → String) (storage : DefinitionStorage ν) : Definitions :=
  ⟨storage.definitions.reverse.map fun entry => entry.2.named text⟩

end DefinitionStorage

end ModelForms
