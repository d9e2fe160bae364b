import Mathlib.Logic.Relation
import ModelForms.Proofs.Types.Pools
import ModelForms.Proofs.Types.Terms

/-!
# What every stored table is like

A session is a storage together with the ids that it has given, in a sequence of calls of the
constructors of types.  Each call is made on intrinsic types and on ids that were given before.

Whatever the calls are, the indexes of the three pools are the inverses of the values, ids stand for
different structures exactly if they are different, stored unions are in normal form, and a type
comes after the types that it is built from (`Session.canonical_of_calls`).  What is stored under an
id that was given never changes.

One call keeps the storage sound and does to the stored table what a constructor of `Interning` does
(`Call.refines`), so the stored table is one that is built up type by type, and such a table is
well-formed.
-/

namespace ModelForms

open Relation

namespace Storage

variable {storage : Storage}

/-! ## The constructors -/

theorem refines_pure {α : Type} (sound : storage.Sound) (a : α) :
    Refines (pure a : Storing α) (pure a : Interning α) storage :=
  ⟨sound, .refl storage, rfl, rfl⟩

theorem refines_notes (properties : List Property) {storage : Storage} (sound : storage.Sound) :
    Refines (properties.forM fun p => Storing.note p.name)
      (properties.forM fun p => Interning.note p.name) storage := by
  induction properties generalizing storage with
  | nil => exact refines_pure sound PUnit.unit
  | cons p rest ih =>
    have first := refines_note sound p.name
    exact first.bind (ih first.sound)

theorem refines_literal (sound : storage.Sound) (value : Literal) :
    Refines (Storing.literal value) (Interning.literal value) storage := by
  cases value with
  | string text =>
    have first := refines_note sound text
    exact first.bind (refines_intern first.sound _ trivial)
  | number value => exact refines_intern sound (.literal (.number value)) trivial
  | boolean value => exact refines_intern sound (.literal (.boolean value)) trivial

theorem refines_leaf (sound : storage.Sound) (name : String) :
    Refines (Storing.leaf name) (Interning.leaf name) storage := by
  have first := refines_note sound name
  exact first.bind (refines_intern first.sound _ trivial)

/-- Giving a list its number leaves the stored table as it is. -/
theorem table_eq_of_growsTo {later : Storage} (sound : storage.Sound)
    (grows : storage.GrowsTo later) (types : later.types = storage.types)
    (names : later.names = storage.names) :
    later.table = storage.table := by
  have entries := entries_eq_of_growsTo sound grows types
  unfold table at entries ⊢
  rw [names, show later.types.items.map later.entry = _ from entries]

theorem refines_internShape (sound : storage.Sound) (properties : List Property) :
    Refines (Storing.internShape properties)
      (pure (Storing.internShape properties storage).1 : Interning Nat) storage := by
  have grows : storage.GrowsTo (Storing.internShape properties storage).2 :=
    ⟨List.prefix_rfl, Pool.prefix_intern properties storage.shapes, List.prefix_rfl⟩
  exact ⟨⟨sound.types, sound.shapes.intern properties, sound.lists, fun type mem =>
    grows.holds (sound.holds type mem)⟩, grows, rfl, table_eq_of_growsTo sound grows rfl rfl⟩

theorem refines_internList (sound : storage.Sound) (members : List TypeId) :
    Refines (Storing.internList members)
      (pure (Storing.internList members storage).1 : Interning Nat) storage := by
  have grows : storage.GrowsTo (Storing.internList members storage).2 :=
    ⟨List.prefix_rfl, List.prefix_rfl, Pool.prefix_intern members storage.lists⟩
  exact ⟨⟨sound.types, sound.shapes, sound.lists.intern members, fun type mem =>
    grows.holds (sound.holds type mem)⟩, grows, rfl, table_eq_of_growsTo sound grows rfl rfl⟩

/-- A list of properties gets its number before the object gets its id. -/
theorem refines_object (sound : storage.Sound) (properties : List Property) :
    Refines (Storing.object properties) (Interning.object properties) storage := by
  have noted := refines_notes properties sound
  refine noted.bind ?_
  have numbered := refines_internShape noted.sound properties
  have got := noted.sound.shapes.get?_intern properties
  generalize ((properties.forM fun p => Storing.note p.name : Storing PUnit) storage).2 = middle
    at numbered got
  have last := refines_intern numbered.sound (.object (Storing.internShape properties middle).1)
    ⟨properties, got⟩
  have entry : (Storing.internShape properties middle).2.entry
      (.object (Storing.internShape properties middle).1) = .object properties := by
    rw [entry, shape]
    exact congrArg (fun list => TypeEntry.object (list.getD [])) got
  rw [entry] at last
  have both : Refines (do Storing.intern (.object (← Storing.internShape properties)))
      (do let _ ← pure (Storing.internShape properties middle).1
          Interning.intern (.object properties)) middle := numbered.bind last
  exact both

theorem union_of_single {members : List TypeId} {id : TypeId}
    (normal : TypeTable.normalize (storage.table.flatten members) = .single id) :
    Storing.union members storage = (id, storage) := by
  rw [← flatten_eq] at normal
  change StateT.run (Storing.union members) storage = _
  simp only [Storing.union, StateT.run_bind, StateT.run_get, pure_bind, normal]
  rfl

theorem union_of_several {members list : List TypeId}
    (normal : TypeTable.normalize (storage.table.flatten members) = .several list) :
    Storing.union members storage
      = (do Storing.intern (.union (← Storing.internList list)) : Storing TypeId) storage := by
  rw [← flatten_eq] at normal
  change StateT.run (Storing.union members) storage = _
  simp only [Storing.union, StateT.run_bind, StateT.run_get, pure_bind, normal]
  rfl

/-- A list of members gets its number before the union gets its id. -/
theorem refines_union (sound : storage.Sound) (members : List TypeId) :
    Refines (Storing.union members) (Interning.union members) storage := by
  have makes := TypeTable.union_eq members storage.table
  cases normal : TypeTable.normalize (storage.table.flatten members) with
  | single id =>
    rw [normal] at makes
    refine ⟨?_, ?_, ?_, ?_⟩ <;> rw [union_of_single normal]
    · exact sound
    · exact .refl storage
    · rw [makes]
    · rw [makes]
  | several list =>
    have numbered := refines_internList sound list
    have got := sound.lists.get?_intern list
    have last := refines_intern numbered.sound (.union (Storing.internList list storage).1)
      ⟨list, got⟩
    have entry : (Storing.internList list storage).2.entry
        (.union (Storing.internList list storage).1) = .union list := by
      rw [Storage.entry, Storage.list]
      exact congrArg (fun list => TypeEntry.union (list.getD [])) got
    rw [entry] at last
    have both : Refines (do Storing.intern (.union (← Storing.internList list)))
        (do let _ ← pure (Storing.internList list storage).1
            Interning.intern (.union list)) storage := numbered.bind last
    rw [normal] at makes
    refine ⟨?_, ?_, ?_, ?_⟩ <;> rw [union_of_several normal]
    · exact both.sound
    · exact both.grows
    · rw [makes]
      exact both.result
    · rw [makes]
      exact both.table

end Storage

/-! ## Calls -/

/-- A call of a constructor of types. -/
inductive Call where
  | object (properties : List Property)
  | array (element : TypeId)
  | union (members : List TypeId)
  | nullable (id : TypeId)
  | literal (value : Literal)
  | leaf (name : String)
  | reference (definition : ModelId)

namespace Call

/-- The types that a call is given. -/
def operands : Call → List TypeId
  | .object properties => properties.map Property.type
  | .array element => [element]
  | .union members => members
  | .nullable id => [id]
  | .literal _ | .leaf _ | .reference _ => []

/-- What a call does to a storage. -/
def stored : Call → Storing TypeId
  | .object properties => Storing.object properties
  | .array element => Storing.array element
  | .union members => Storing.union members
  | .nullable id => Storing.nullable id
  | .literal value => Storing.literal value
  | .leaf name => Storing.leaf name
  | .reference definition => Storing.reference definition

/-- What a call does to a table. -/
def plain : Call → Interning TypeId
  | .object properties => Interning.object properties
  | .array element => Interning.array element
  | .union members => Interning.union members
  | .nullable id => Interning.nullable id
  | .literal value => Interning.literal value
  | .leaf name => Interning.leaf name
  | .reference definition => Interning.reference definition

/-- A call does to the stored table what it does to a table. -/
theorem refines (call : Call) {storage : Storage} (sound : storage.Sound) :
    Storage.Refines call.stored call.plain storage :=
  match call with
  | .object properties => Storage.refines_object sound properties
  | .array element => Storage.refines_intern sound (.array element) trivial
  | .union members => Storage.refines_union sound members
  | .nullable id => Storage.refines_union sound [id, TypeId.null]
  | .literal value => Storage.refines_literal sound value
  | .leaf name => Storage.refines_leaf sound name
  | .reference definition => Storage.refines_intern sound (.reference definition) trivial

variable {table : TypeTable}

/-- A call on known types gives a table that is built up type by type. -/
theorem built (call : Call) (built : table.Built) (known : ∀ id ∈ call.operands, table.Knows id) :
    (call.plain table).2.Built :=
  match call with
  | .object _ => built.object fun p mem => known p.type (List.mem_map_of_mem mem)
  | .array element => built.array (known element (List.mem_singleton_self _))
  | .union _ => built.union known
  | .nullable id => built.union (List.forall_mem_cons.2
      ⟨known id (List.mem_singleton_self _), List.forall_mem_singleton.2
        (TypeTable.knows_intrinsic table .null)⟩)
  | .literal value => built.literal value
  | .leaf name => built.leaf name
  | .reference definition => built.reference definition

/-- The id that a call gives is known. -/
theorem knows (call : Call) (wf : table.WellFormed) (known : ∀ id ∈ call.operands, table.Knows id) :
    (call.plain table).2.Knows (call.plain table).1 := by
  cases call with
  | object properties =>
    obtain ⟨noted, _, same⟩ := TypeTable.object_eq properties table
    rw [plain, same]
    exact TypeTable.knows_intern _ _
  | literal value =>
    obtain ⟨noted, _, same⟩ := TypeTable.literal_eq value table
    rw [plain, same]
    exact TypeTable.knows_intern _ _
  | union members => exact (TypeTable.union_spec wf known).1.knows
  | nullable id =>
    refine (TypeTable.union_spec wf (List.forall_mem_cons.2 ⟨?_, ?_⟩)).1.knows
    · exact known id (List.mem_singleton_self _)
    · exact List.forall_mem_singleton.2 (TypeTable.knows_intrinsic table .null)
  | leaf name => exact TypeTable.knows_intern (.leaf name) (Interning.note name table).2
  | array | reference => exact TypeTable.knows_intern _ _

end Call

/-! ## Sessions -/

/-- A storage and the ids that it has given so far. -/
structure Session where
  storage : Storage
  given : List TypeId

namespace Session

/-- The session before the first call. -/
def start : Session := ⟨.empty, []⟩

/-- The session after a call. -/
def after (session : Session) (call : Call) : Session :=
  ⟨(call.stored session.storage).2, session.given ++ [(call.stored session.storage).1]⟩

/-- A type that a call may be given: an intrinsic one, or one that was given before. -/
def Offers (session : Session) (id : TypeId) : Prop :=
  (∃ k, id = TypeId.ofIntrinsic k) ∨ id ∈ session.given

/-- One call. -/
inductive Next : Session → Session → Prop
  | call (session : Session) (call : Call) (offered : ∀ id ∈ call.operands, session.Offers id) :
      Next session (session.after call)

/-- What one call keeps. -/
structure Regular (session : Session) : Prop where
  sound : session.storage.Sound
  built : session.storage.table.Built
  knows : ∀ id ∈ session.given, session.storage.table.Knows id

theorem regular_start : start.Regular where
  sound := Storage.sound_empty
  built := .empty
  knows _ mem := absurd mem List.not_mem_nil

variable {session later : Session}

namespace Regular

variable (regular : session.Regular)

include regular

theorem wellFormed : session.storage.table.WellFormed := regular.built.wellFormed

theorem knows_of_offers {id : TypeId} (offers : session.Offers id) :
    session.storage.table.Knows id := by
  rcases offers with ⟨k, rfl⟩ | mem
  · exact TypeTable.knows_intrinsic _ k
  · exact regular.knows id mem

end Regular

/-- One call keeps a session regular. -/
theorem Regular.next (regular : session.Regular) (next : Next session later) :
    later.Regular ∧ session.storage.GrowsTo later.storage := by
  cases next with
  | call call offered =>
    have known : ∀ id ∈ call.operands, session.storage.table.Knows id :=
      fun id mem => regular.knows_of_offers (offered id mem)
    have refines := call.refines regular.sound
    refine ⟨⟨refines.sound, ?_, fun id mem => ?_⟩, refines.grows⟩
    · show (call.stored session.storage).2.table.Built
      rw [refines.table]
      exact call.built regular.built known
    · rcases List.mem_append.1 mem with mem | mem
      · obtain ⟨type, found⟩ := Storage.knows_iff.1 (regular.knows id mem)
        exact Storage.knows_iff.2 ⟨type, refines.grows.lookup found⟩
      · cases List.mem_singleton.1 mem
        show (call.stored session.storage).2.table.Knows (call.stored session.storage).1
        rw [refines.table, refines.result]
        exact call.knows regular.wellFormed known

/-- So does a sequence of calls. -/
theorem Regular.calls (regular : session.Regular) (calls : ReflTransGen Next session later) :
    later.Regular ∧ session.storage.GrowsTo later.storage := by
  induction calls with
  | refl => exact ⟨regular, .refl _⟩
  | tail _ next ih =>
    obtain ⟨regular', grows⟩ := ih.1.next next
    exact ⟨regular', ih.2.trans grows⟩

/-! ## Canonical representations -/

/-- What there is to say of a storage and the ids that it has given. -/
structure Canonical (session : Session) : Prop where
  /-- The indexes are the inverses of the values, so no value has two numbers. -/
  types : session.storage.types.Sound
  shapes : session.storage.shapes.Sound
  lists : session.storage.lists.Sound
  /-- No two ids have the same stored type. -/
  lookup_injective : ∀ id other type, session.storage.lookup id = some type →
    session.storage.lookup other = some type → id = other
  /-- Ids that were given are equal exactly if they stand for the same structure. -/
  term_iff : ∀ id ∈ session.given, ∀ other ∈ session.given,
    id = other ↔ session.storage.table.term id = session.storage.table.term other
  /-- The list of properties of an object is there. -/
  objects : ∀ id number, session.storage.lookup id = some (.object number) →
    ∃ properties, session.storage.shapes.get? number = some properties
  /-- The list of members of a union is there, and in normal form. -/
  unions : ∀ id number, session.storage.lookup id = some (.union number) →
    ∃ members, session.storage.lists.get? number = some members ∧ 2 ≤ members.length
      ∧ members.Pairwise (·.index < ·.index)
      ∧ ∀ m ∈ members, m ≠ TypeId.never ∧ m ≠ TypeId.unknown
        ∧ ∀ inner, session.storage.lookup m ≠ some (.union inner)
  /-- A type comes after the types in it. -/
  older : ∀ id type, session.storage.lookup id = some type →
    ∀ part ∈ (session.storage.entry type).parts, part.index < id.index

theorem Regular.canonical (regular : session.Regular) : session.Canonical := by
  have wf := regular.wellFormed
  have stored {id : TypeId} {type : StoredType} (found : session.storage.lookup id = some type) :
      session.storage.table.lookup id = some (session.storage.entry type) := by
    rw [Storage.lookup_table, found, Option.map_some]
  constructor
  case types => exact regular.sound.types
  case shapes => exact regular.sound.shapes
  case lists => exact regular.sound.lists
  case lookup_injective => exact fun id other type h h' => wf.eq_of_lookup (stored h) (stored h')
  case term_iff =>
    exact fun id mem other mem' => ⟨congrArg _, fun same =>
      wf.term_injective (regular.knows id mem) (regular.knows other mem') same⟩
  case objects =>
    intro id number found
    obtain ⟨k, same⟩ | there := regular.sound.holds_of_lookup found
    · cases same
    · exact there
  case unions =>
    intro id number found
    obtain ⟨k, same⟩ | ⟨members, got⟩ := regular.sound.holds_of_lookup found
    · cases same
    have entry : session.storage.entry (.union number) = .union members := by
      rw [Storage.entry, Storage.list, got, Option.getD_some]
    have normal := wf.normalUnion
      (TypeTable.unionMembers?_eq_some_iff.2 ((stored found).trans (congrArg some entry)))
    refine ⟨members, got, normal.several, normal.ascending, fun m mem =>
      ⟨(normal.proper m mem).1, (normal.proper m mem).2, fun inner isUnion => ?_⟩⟩
    have flat := normal.flat m mem
    rw [TypeTable.unionMembers?, stored isUnion] at flat
    cases flat
  case older => exact fun id type found part mem => (wf.part_lt (stored found) mem).2

/-- After every sequence of calls, each on intrinsic types and on ids that were given before, the
representation is canonical.  Whatever calls follow, each id that was given keeps what is stored
under it, with the properties or the members that belong to it. -/
theorem canonical_of_calls (before : ReflTransGen Next start session)
    (after : ReflTransGen Next session later) :
    session.Canonical ∧ ∀ id ∈ session.given, ∃ type, session.storage.lookup id = some type
      ∧ later.storage.lookup id = some type
      ∧ later.storage.entry type = session.storage.entry type := by
  obtain ⟨regular, _⟩ := regular_start.calls before
  obtain ⟨_, grows⟩ := regular.calls after
  refine ⟨regular.canonical, fun id mem => ?_⟩
  obtain ⟨type, found⟩ := Storage.knows_iff.1 (regular.knows id mem)
  exact ⟨type, found, grows.lookup found, grows.entry_eq_of_lookup regular.sound found⟩

/-- A session that makes an array of a leaf, and then the union of the array and its nullable
version. -/
def invoice : Session :=
  ((start.after (.leaf "Money")).after (.array ⟨100⟩)).after (.nullable ⟨101⟩)

theorem canonical_of_calls_invoice :
    ReflTransGen Next start invoice
      ∧ ReflTransGen Next invoice (invoice.after (.union [⟨102⟩, ⟨101⟩]))
      ∧ invoice.Canonical ∧ (invoice.after (.union [⟨102⟩, ⟨101⟩])).given.getLast? = some ⟨102⟩
      ∧ (invoice.after (.union [⟨102⟩, ⟨101⟩])).storage.lookup ⟨102⟩ = some (.union 1) := by
  have before : ReflTransGen Next start invoice := by
    refine ReflTransGen.tail (.tail (.single (.call _ _ fun _ mem => absurd mem List.not_mem_nil))
      (.call _ _ ?_)) (.call _ _ ?_)
    · exact List.forall_mem_singleton.2 (.inr (by decide +kernel))
    · exact List.forall_mem_singleton.2 (.inr (by decide +kernel))
  have after : ReflTransGen Next invoice (invoice.after (.union [⟨102⟩, ⟨101⟩])) := by
    refine .single (.call _ _
      (List.forall_mem_cons.2 ⟨.inr ?_, List.forall_mem_singleton.2 (.inr ?_)⟩))
    · decide +kernel
    · decide +kernel
  obtain ⟨canonical, keeps⟩ := canonical_of_calls before after
  obtain ⟨type, found, kept, _⟩ := keeps ⟨102⟩ (by decide +kernel)
  refine ⟨before, after, canonical, by decide +kernel, ?_⟩
  rw [kept, ← found]
  decide +kernel

end Session

end ModelForms
