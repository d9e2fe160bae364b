import ModelForms.Pool
import ModelForms.Types.Table

/-!
# How a type table is stored

A table of types is stored in pools.  What a type is takes one place in the pool of types.  An
object is stored there as the number of its list of properties and a union as the number of its list
of members, and these lists are in pools of their own.  The empty list of members is there from the
start.

`Storage.table` is the table that is stored.  The constructors of types do here what those of
`Interning` do to that table.
-/

namespace ModelForms

/-! ## Stored types -/

/-- What a type is, as it is stored. -/
inductive StoredType where
  | intrinsic (k : Intrinsic)
  | literal (value : Literal)
  | leaf (name : String)
  /-- Objects, by the number of their list of properties. -/
  | object (shape : Nat)
  | array (element : TypeId)
  /-- Unions, by the number of their list of members. -/
  | union (list : Nat)
  | reference (definition : ModelId)
deriving DecidableEq, Repr

/-- A type table as it is stored. -/
structure Storage where
  types : Pool StoredType
  /-- The lists of properties. -/
  shapes : Pool (List Property)
  /-- The lists of members. -/
  lists : Pool (List TypeId)
  names : NameRegister
deriving Repr

namespace Storage

/-- The storage before any type is added. -/
def empty : Storage := ⟨.empty, .empty, .seeded [], .builtin⟩

instance : Inhabited Storage := ⟨empty⟩

/-- What is stored under an id. -/
def lookup (storage : Storage) (id : TypeId) : Option StoredType :=
  if id.isIntrinsic then (Intrinsic.ofIndex? id.index).map .intrinsic
  else storage.types.get? (id.index - TypeId.first)

/-- The list of properties with a number.  A number that was not given out has none. -/
def shape (storage : Storage) (number : Nat) : List Property :=
  (storage.shapes.get? number).getD []

/-- The list of members with a number.  A number that was not given out has none. -/
def list (storage : Storage) (number : Nat) : List TypeId :=
  (storage.lists.get? number).getD []

/-- The members with each union among them replaced by its members. -/
def flatten (storage : Storage) (members : List TypeId) : List TypeId :=
  members.flatMap fun m =>
    match storage.lookup m with
    | some (.union number) => storage.list number
    | _ => [m]

/-! ## The stored table -/

/-- A stored type in terms of other types. -/
def entry (storage : Storage) : StoredType → TypeEntry
  | .intrinsic k => .intrinsic k
  | .literal value => .literal value
  | .leaf name => .leaf name
  | .object number => .object (storage.shape number)
  | .array element => .array element
  | .union number => .union (storage.list number)
  | .reference definition => .reference definition

/-- The table that is stored. -/
def table (storage : Storage) : TypeTable :=
  ⟨storage.types.items.map storage.entry, storage.names⟩

end Storage

/-! ## Adding types -/

/-- A computation that may add types to a storage. -/
abbrev Storing := StateM Storage

namespace Storing

/-- Makes a name known. -/
def note (name : String) : Storing Unit := fun storage =>
  ((), { storage with names := storage.names.note name })

/-- The id of a stored type, which is added if it is new. -/
def intern (type : StoredType) : Storing TypeId := fun storage =>
  match type with
  | .intrinsic k => (TypeId.ofIntrinsic k, storage)
  | type =>
      let (number, types) := storage.types.intern type
      (⟨TypeId.first + number⟩, { storage with types := types })

/-- The number of a list of properties, which is added if it is new. -/
def internShape (properties : List Property) : Storing Nat := fun storage =>
  let (number, shapes) := storage.shapes.intern properties
  (number, { storage with shapes := shapes })

/-- The number of a list of members, which is added if it is new. -/
def internList (members : List TypeId) : Storing Nat := fun storage =>
  let (number, lists) := storage.lists.intern members
  (number, { storage with lists := lists })

/-- The type of one literal. -/
def literal (value : Literal) : Storing TypeId := do
  if let .string s := value then note s
  intern (.literal value)

/-- A named type that is never taken apart. -/
def leaf (name : String) : Storing TypeId := do
  note name
  intern (.leaf name)

/-- Objects with the given properties. -/
def object (properties : List Property) : Storing TypeId := do
  properties.forM fun p => note p.name
  intern (.object (← internShape properties))

/-- Arrays of a type. -/
def array (element : TypeId) : Storing TypeId := intern (.array element)

/-- References to a model. -/
def reference (definition : ModelId) : Storing TypeId := intern (.reference definition)

/-- The union of the given members, in normal form. -/
def union (members : List TypeId) : Storing TypeId := do
  match TypeTable.normalize ((← get).flatten members) with
  | .single id => return id
  | .several members => intern (.union (← internList members))

/-- A type together with `null`. -/
def nullable (id : TypeId) : Storing TypeId := union [id, TypeId.null]

end Storing

end ModelForms
