import ModelForms.Intrinsic
import ModelForms.NameRegister
import ModelForms.Number.Double

/-!
# The type table

Every type that is structurally new gets an entry in a table, and an id that stands for it from
then on.  Types that are built from other types refer to them by their ids, so two types that are
built the same way have the same id.  The intrinsic types have fixed ids below the first one that
is given out.

Unions are kept in a normal form.  Members that are unions are replaced by their own members,
`never` is left out, `unknown` takes the place of the whole union, and the members stand in
ascending order without repetition.  A union of one member is that member.

The table also keeps a register of the names it was asked about.  Nothing else depends on the
register.

`lookup_intern` says that an entry is found under the id it was given, and `lookup_intern_of_known`
that entries never change.
-/

namespace ModelForms

/-- A handle for a type. -/
structure TypeId where
  /-- The place in the order of ids. -/
  index : Nat
deriving DecidableEq, Repr, Inhabited

/-- A handle for a named model.  The handles that are given out count from one. -/
structure ModelId where
  /-- The place in the order of reservations. -/
  index : Nat
deriving DecidableEq, Repr, Inhabited

namespace TypeId

/-- The id of an intrinsic type. -/
def ofIntrinsic (k : Intrinsic) : TypeId := ⟨k.index⟩

/-- The first id that is given out. -/
def first : Nat := 100

/-- Whether an id lies in the range kept for the intrinsic types. -/
def isIntrinsic (id : TypeId) : Bool := id.index < first

/-- The type without values. -/
abbrev never : TypeId := ofIntrinsic .never

/-- The type of every value. -/
abbrev unknown : TypeId := ofIntrinsic .unknown

/-- The type of `null`. -/
abbrev null : TypeId := ofIntrinsic .null

/-- The type of an absent value. -/
abbrev undefined : TypeId := ofIntrinsic .undefined

/-- Whether a type is `null` or `undefined`. -/
def isNullish (id : TypeId) : Bool := id == null || id == undefined

end TypeId

/-- A literal that is a type. -/
inductive Literal where
  | string (value : String)
  | number (value : Double)
  | boolean (value : Bool)
deriving DecidableEq, Repr

/-- A property of an object type. -/
structure Property where
  name : String
  type : TypeId
  /-- Whether the property is declared as one that may be absent. -/
  optional : Bool
deriving DecidableEq, Repr

/-- What a type is, in terms of other types. -/
inductive TypeEntry where
  | intrinsic (k : Intrinsic)
  | literal (value : Literal)
  /-- A named type of objects that are never taken apart. -/
  | leaf (name : String)
  /-- Objects with the given properties, in the order of their declaration. -/
  | object (properties : List Property)
  | array (element : TypeId)
  | union (members : List TypeId)
  /-- Whatever the named model is. -/
  | reference (definition : ModelId)
deriving DecidableEq, Repr

/-- The types that have ids. -/
structure TypeTable where
  /-- The entries in the order of their ids. -/
  entries : List TypeEntry
  /-- The names that the table was asked about. -/
  names : NameRegister
deriving DecidableEq, Repr

namespace TypeTable

/-- A table without types. -/
def empty : TypeTable := ⟨[], .builtin⟩

instance : Inhabited TypeTable := ⟨empty⟩

/-- The number of types that were given an id. -/
def size (table : TypeTable) : Nat := table.entries.length

/-- The entry of an id.  An id that was not given out has none. -/
def lookup (table : TypeTable) (id : TypeId) : Option TypeEntry :=
  if id.isIntrinsic then (Intrinsic.ofIndex? id.index).map .intrinsic
  else table.entries[id.index - TypeId.first]?

/-- The members of a union. -/
def unionMembers? (table : TypeTable) (id : TypeId) : Option (List TypeId) :=
  match table.lookup id with
  | some (.union members) => some members
  | _ => none

/-- The model that a type refers to. -/
def referenced? (table : TypeTable) (id : TypeId) : Option ModelId :=
  match table.lookup id with
  | some (.reference definition) => some definition
  | _ => none

/-! ## Adding types -/

end TypeTable

/-- A computation that may add types to a table. -/
abbrev Interning := StateM TypeTable

namespace Interning

/-- Makes a name known. -/
def note (name : String) : Interning Unit := fun table =>
  ((), { table with names := table.names.note name })

/-- The id of an entry, which is added if it is new. -/
def intern (entry : TypeEntry) : Interning TypeId := fun table =>
  match entry with
  | .intrinsic k => (TypeId.ofIntrinsic k, table)
  | entry =>
      match table.entries.idxOf? entry with
      | some i => (⟨TypeId.first + i⟩, table)
      | none => (⟨TypeId.first + table.size⟩, { table with entries := table.entries ++ [entry] })

/-- The type of one literal. -/
def literal (value : Literal) : Interning TypeId := do
  if let .string s := value then note s
  intern (.literal value)

/-- A named type that is never taken apart. -/
def leaf (name : String) : Interning TypeId := do
  note name
  intern (.leaf name)

/-- Objects with the given properties. -/
def object (properties : List Property) : Interning TypeId := do
  properties.forM fun p => note p.name
  intern (.object properties)

/-- Arrays of a type. -/
def array (element : TypeId) : Interning TypeId := intern (.array element)

/-- References to a model. -/
def reference (definition : ModelId) : Interning TypeId := intern (.reference definition)

end Interning

/-! ## Unions -/

namespace TypeTable

/-- The members with each union among them replaced by its members. -/
def flatten (table : TypeTable) (members : List TypeId) : List TypeId :=
  members.flatMap fun m => (table.unionMembers? m).getD [m]

/-- A strictly ascending list with one more id. -/
def insertAscending (id : TypeId) : List TypeId → List TypeId
  | [] => [id]
  | m :: rest =>
      if id.index < m.index then id :: m :: rest
      else if id = m then m :: rest
      else m :: insertAscending id rest
termination_by structural members => members

/-- The ids of a list in ascending order and without repetition. -/
def ascending (members : List TypeId) : List TypeId := members.foldr insertAscending []

/-- What a list of flattened members comes to as a union. -/
inductive UnionForm where
  /-- A type that is there already. -/
  | single (id : TypeId)
  /-- Two or more members in normal form. -/
  | several (members : List TypeId)
deriving DecidableEq, Repr

/-- The normal form of the union of flattened members. -/
def normalize (flat : List TypeId) : UnionForm :=
  if TypeId.unknown ∈ flat then .single TypeId.unknown
  else match ascending (flat.filter (· ≠ TypeId.never)) with
    | [] => .single TypeId.never
    | [m] => .single m
    | members => .several members

end TypeTable

namespace Interning

/-- The union of the given members, in normal form. -/
def union (members : List TypeId) : Interning TypeId := do
  match TypeTable.normalize ((← get).flatten members) with
  | .single id => return id
  | .several members => intern (.union members)

/-- A type together with `null`. -/
def nullable (id : TypeId) : Interning TypeId := union [id, TypeId.null]

end Interning

/-! ## What adding does to the table -/

namespace TypeTable

theorem intern_of_found {table : TypeTable} {entry : TypeEntry} {i : Nat}
    (proper : ∀ k, entry ≠ .intrinsic k) (found : table.entries.idxOf? entry = some i) :
    Interning.intern entry table = (⟨TypeId.first + i⟩, table) := by
  unfold Interning.intern
  split
  next k => exact absurd rfl (proper k)
  next => simp only [found]

theorem intern_of_new {table : TypeTable} {entry : TypeEntry}
    (proper : ∀ k, entry ≠ .intrinsic k) (new : table.entries.idxOf? entry = none) :
    Interning.intern entry table
      = (⟨TypeId.first + table.size⟩, { table with entries := table.entries ++ [entry] }) := by
  unfold Interning.intern
  split
  next k => exact absurd rfl (proper k)
  next => simp only [new]

/-- An entry is found under the id that it is given. -/
theorem lookup_intern (entry : TypeEntry) (table : TypeTable) :
    (Interning.intern entry table).2.lookup (Interning.intern entry table).1 = some entry := by
  unfold Interning.intern
  split
  · rename_i k
    cases k <;> rfl
  · split
    · rename_i i hi
      unfold List.idxOf? at hi
      obtain ⟨hlt, hp, _⟩ := List.findIdx?_eq_some_iff_getElem.1 hi
      have : ¬ TypeId.first + i < TypeId.first := by omega
      simp only [lookup, TypeId.isIntrinsic, this, decide_false, Nat.add_sub_cancel_left]
      rw [List.getElem?_eq_getElem hlt]
      simpa using hp
    · have : ¬ TypeId.first + table.entries.length < TypeId.first := by omega
      simp [lookup, TypeId.isIntrinsic, size, this]

/-- Adding an entry only appends to the table. -/
theorem entries_intern (entry : TypeEntry) (table : TypeTable) :
    (Interning.intern entry table).2.entries = table.entries
      ∨ (Interning.intern entry table).2.entries = table.entries ++ [entry] := by
  unfold Interning.intern
  split
  · exact Or.inl rfl
  · split
    · exact Or.inl rfl
    · exact Or.inr rfl

/-- An id that has an entry keeps it. -/
theorem lookup_intern_of_known {table : TypeTable} {id : TypeId} {known : TypeEntry}
    (h : table.lookup id = some known) (entry : TypeEntry) :
    (Interning.intern entry table).2.lookup id = some known := by
  rcases entries_intern entry table with he | he
  · simpa [lookup, he] using h
  · unfold lookup at h ⊢
    split
    · simp_all
    · rename_i hid
      simp only [hid] at h
      rw [he, List.getElem?_append_left (List.getElem?_eq_some_iff.1 h).1]
      simpa using h

example : (Interning.union [TypeId.null, TypeId.never, TypeId.null] empty).1 = TypeId.null := by
  decide +kernel
example : (Interning.union [TypeId.null, ⟨6⟩] empty).2.entries = [.union [TypeId.null, ⟨6⟩]] := by
  decide +kernel

end TypeTable

end ModelForms
