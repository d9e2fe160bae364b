import ModelForms.NameRegister
import ModelForms.Pool

/-!
# How a name register is stored

The names of a register are stored in a pool, so a name is found without looking through the others.
A number has 32 bits, which bounds how many names there can be.  A name for which there is no number
left is given that of the empty name.

The empty name is there from the start, so its number is known without a look at the pool.  Any
other name is looked for before it is added, and once more when it is.

`NameStorage.register` is the register that is stored.
-/

namespace ModelForms

/-- A name register as it is stored. -/
structure NameStorage where
  pool : Pool String
deriving Repr

namespace NameStorage

/-- How many names there can be. -/
def capacity : Nat := 1 <<< 32

/-- The register that is stored. -/
def register (storage : NameStorage) : NameRegister := ⟨storage.pool.items⟩

/-- The number of a name that is stored. -/
def find? (storage : NameStorage) (name : String) : Option Nat := storage.pool.find? name

/-- The name with a number. -/
def name? (storage : NameStorage) (number : Nat) : Option String := storage.pool.get? number

/-- The name with a number, or the empty name for a number that was not given out. -/
def name (storage : NameStorage) (number : Nat) : String := (storage.name? number).getD ""

/-- The number of names, the empty one included. -/
def size (storage : NameStorage) : Nat := storage.pool.items.length

/-- Whether only the empty name is stored. -/
def isEmpty (storage : NameStorage) : Bool := storage.size ≤ 1

/-- Adds a name unless it is there, and gives its number if there is one for it. -/
def insert (name : String) (storage : NameStorage) : Option Nat × NameStorage :=
  match storage.find? name with
  | some number => (some number, storage)
  | none =>
      if storage.size < capacity then
        let (number, pool) := storage.pool.insert name
        (some number, ⟨pool⟩)
      else (none, storage)

/-- The number of a name, which is added if it is new. -/
def intern (name : String) (storage : NameStorage) : Nat × NameStorage :=
  if name.isEmpty then (0, storage)
  else match storage.find? name with
    | some number => (number, storage)
    | none =>
        let (number, storage) := storage.insert name
        (number.getD 0, storage)

/-- The storage of the empty name. -/
def empty : NameStorage := (insert "" ⟨.empty⟩).2

instance : Inhabited NameStorage := ⟨empty⟩

/-- The storage of the empty name and of names that are interned after it, in order. -/
def seeded (names : List String) : NameStorage :=
  names.foldl (fun storage name => (storage.intern name).2) empty

/-- The storage of the names of the model language. -/
def builtin : NameStorage := seeded NameRegister.languageNames

example : builtin.register = NameRegister.builtin := by decide +kernel

end NameStorage

end ModelForms
