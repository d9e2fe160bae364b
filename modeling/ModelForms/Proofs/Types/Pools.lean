import ModelForms.Proofs.Pool
import ModelForms.Proofs.Types.UnionForm
import ModelForms.Types.Storage

/-!
# Pools and what they store

A storage is sound if its pools are and the lists that its types refer to are there
(`Storage.Sound`).  Then two stored types of one entry are the same type, so the pool of types finds
a type exactly where the stored table finds its entry.  Every constructor of types therefore does to
the stored table what the constructor of the same name does in `Interning` (`Storage.Refines`), and
it keeps the storage sound.
-/

namespace ModelForms

namespace Storage

variable {storage later : Storage} {type other : StoredType}

/-! ## Sound storages -/

/-- The list that a stored type refers to is there.  The intrinsic types are not stored. -/
def Holds (storage : Storage) : StoredType → Prop
  | .intrinsic _ => False
  | .object number => ∃ properties, storage.shapes.get? number = some properties
  | .union number => ∃ members, storage.lists.get? number = some members
  | .literal _ | .leaf _ | .array _ | .reference _ => True

/-- A storage that was built up by adding types. -/
structure Sound (storage : Storage) : Prop where
  types : storage.types.Sound
  shapes : storage.shapes.Sound
  lists : storage.lists.Sound
  /-- The lists that the types refer to are there. -/
  holds : ∀ type ∈ storage.types.items, storage.Holds type

theorem sound_empty : empty.Sound where
  types := Pool.sound_empty
  shapes := Pool.sound_empty
  lists := Pool.sound_seeded []
  holds _ h := absurd h List.not_mem_nil

/-- A later storage has all that an earlier one has under the same numbers. -/
structure GrowsTo (storage later : Storage) : Prop where
  types : storage.types.items <+: later.types.items
  shapes : storage.shapes.items <+: later.shapes.items
  lists : storage.lists.items <+: later.lists.items

theorem GrowsTo.refl (storage : Storage) : storage.GrowsTo storage :=
  ⟨List.prefix_rfl, List.prefix_rfl, List.prefix_rfl⟩

theorem GrowsTo.trans {last : Storage} (h : storage.GrowsTo later) (h' : later.GrowsTo last) :
    storage.GrowsTo last :=
  ⟨h.types.trans h'.types, h.shapes.trans h'.shapes, h.lists.trans h'.lists⟩

theorem GrowsTo.holds (grows : storage.GrowsTo later) (holds : storage.Holds type) :
    later.Holds type := by
  cases type with
  | intrinsic => exact holds
  | object number => exact holds.imp fun _ => Pool.get?_of_prefix grows.shapes
  | union number => exact holds.imp fun _ => Pool.get?_of_prefix grows.lists
  | literal | leaf | array | reference => exact trivial

/-- A stored type keeps its entry. -/
theorem GrowsTo.entry_eq (grows : storage.GrowsTo later) (holds : storage.Holds type) :
    later.entry type = storage.entry type := by
  cases type with
  | object number =>
    obtain ⟨properties, h⟩ := holds
    simp only [entry, shape, h, Pool.get?_of_prefix grows.shapes h]
  | union number =>
    obtain ⟨members, h⟩ := holds
    simp only [entry, list, h, Pool.get?_of_prefix grows.lists h]
  | intrinsic | literal | leaf | array | reference => rfl

/-- An id keeps what is stored under it. -/
theorem GrowsTo.lookup (grows : storage.GrowsTo later) {id : TypeId}
    (h : storage.lookup id = some type) : later.lookup id = some type := by
  unfold Storage.lookup at h ⊢
  split
  next inside => rwa [if_pos inside] at h
  next outside =>
    rw [if_neg outside] at h
    exact Pool.get?_of_prefix grows.types h

/-- What is stored under an id is intrinsic, or the list that it refers to is there. -/
theorem Sound.holds_of_lookup (sound : storage.Sound) {id : TypeId}
    (found : storage.lookup id = some type) : (∃ k, type = .intrinsic k) ∨ storage.Holds type := by
  unfold lookup at found
  split at found
  next =>
    obtain ⟨k, _, rfl⟩ := Option.map_eq_some_iff.1 found
    exact .inl ⟨k, rfl⟩
  next => exact .inr (sound.holds type (List.mem_of_getElem? found))

/-- What is stored under an id keeps its entry. -/
theorem GrowsTo.entry_eq_of_lookup (grows : storage.GrowsTo later) (sound : storage.Sound)
    {id : TypeId} (found : storage.lookup id = some type) :
    later.entry type = storage.entry type := by
  rcases sound.holds_of_lookup found with ⟨k, rfl⟩ | holds
  · rfl
  · exact grows.entry_eq holds

/-- Stored types of one entry are the same. -/
theorem Sound.entry_injective (sound : storage.Sound) (holds : storage.Holds type)
    (holds' : storage.Holds other) (same : storage.entry type = storage.entry other) :
    type = other := by
  cases type <;> cases other <;> simp only [entry, TypeEntry.intrinsic.injEq,
    TypeEntry.literal.injEq, TypeEntry.leaf.injEq, TypeEntry.object.injEq, TypeEntry.array.injEq,
    TypeEntry.union.injEq, TypeEntry.reference.injEq, reduceCtorEq] at same
  case object.object number again =>
    obtain ⟨properties, h⟩ := holds
    obtain ⟨properties', h'⟩ := holds'
    rw [shape, shape, h, h', Option.getD_some, Option.getD_some] at same
    exact congrArg StoredType.object (sound.shapes.unique h (same ▸ h'))
  case union.union number again =>
    obtain ⟨members, h⟩ := holds
    obtain ⟨members', h'⟩ := holds'
    rw [list, list, h, h', Option.getD_some, Option.getD_some] at same
    exact congrArg StoredType.union (sound.lists.unique h (same ▸ h'))
  all_goals rw [same]

/-! ## The stored table -/

/-- The entry of an id is that of what is stored under it. -/
theorem lookup_table (storage : Storage) (id : TypeId) :
    storage.table.lookup id = (storage.lookup id).map storage.entry := by
  unfold TypeTable.lookup lookup
  split
  next => cases Intrinsic.ofIndex? id.index <;> rfl
  next => exact List.getElem?_map

/-- A known id is one under which something is stored. -/
theorem knows_iff {id : TypeId} :
    storage.table.Knows id ↔ ∃ type, storage.lookup id = some type := by
  rw [TypeTable.Knows, lookup_table, Option.isSome_map, Option.isSome_iff_exists]

theorem flatten_eq (storage : Storage) (members : List TypeId) :
    storage.flatten members = storage.table.flatten members := by
  unfold flatten TypeTable.flatten
  congr 1
  funext m
  rw [TypeTable.unionMembers?, lookup_table]
  cases storage.lookup m with
  | none => rfl
  | some type => cases type <;> rfl

theorem entries_eq_of_growsTo (sound : storage.Sound) (grows : storage.GrowsTo later)
    (types : later.types = storage.types) : later.table.entries = storage.table.entries := by
  unfold table
  rw [types]
  exact List.map_congr_left fun type mem => grows.entry_eq (sound.holds type mem)

/-- The stored table grows with the storage. -/
theorem GrowsTo.table (grows : storage.GrowsTo later) (sound : storage.Sound) :
    storage.table.GrowsTo later.table := by
  obtain ⟨added, same⟩ := grows.types
  refine ⟨added.map later.entry, ?_⟩
  show storage.types.items.map storage.entry ++ _ = later.types.items.map later.entry
  rw [← same, List.map_append,
    List.map_congr_left fun type mem => grows.entry_eq (sound.holds type mem)]

/-- A type is found in its pool exactly where its entry is found in the table. -/
theorem Sound.idxOf?_entry (sound : storage.Sound) (holds : storage.Holds type) :
    storage.table.entries.idxOf? (storage.entry type) = storage.types.find? type := by
  cases found : storage.types.find? type with
  | none =>
    rw [List.idxOf?_eq_none_iff]
    intro mem
    obtain ⟨other, stored, same⟩ := List.mem_map.1 mem
    rw [sound.entry_injective (sound.holds other stored) holds same] at stored
    obtain ⟨number, h⟩ := List.mem_iff_getElem?.1 stored
    cases found.symm.trans ((sound.types type number).2 h)
  | some number =>
    have got := (sound.types type number).1 found
    rw [List.idxOf?, List.findIdx?_eq_some_iff_getElem]
    obtain ⟨inside, is⟩ := List.getElem?_eq_some_iff.1 got
    refine ⟨by simpa [table] using inside, by simp [table, is], fun j lt => ?_⟩
    have stored : storage.types.get? j = some storage.types.items[j] :=
      List.getElem?_eq_getElem (Nat.lt_trans lt inside)
    have apart : storage.types.items[j] ≠ type := fun same =>
      absurd (sound.types.unique (same ▸ stored) got) (Nat.ne_of_lt lt)
    have : storage.entry storage.types.items[j] ≠ storage.entry type := fun same =>
      apart (sound.entry_injective (sound.holds _ (List.mem_of_getElem? stored)) holds same)
    simpa [table] using this

/-! ## Adding types -/

/-- A computation on a storage keeps it sound and does what another does on the stored table. -/
structure Refines {α : Type} (stored : Storing α) (plain : Interning α) (storage : Storage) :
    Prop where
  sound : (stored storage).2.Sound
  grows : storage.GrowsTo (stored storage).2
  result : (stored storage).1 = (plain storage.table).1
  table : (stored storage).2.table = (plain storage.table).2

theorem refines_note (sound : storage.Sound) (name : String) :
    Refines (Storing.note name) (Interning.note name) storage := by
  have grows : storage.GrowsTo (Storing.note name storage).2 :=
    ⟨List.prefix_rfl, List.prefix_rfl, List.prefix_rfl⟩
  exact ⟨⟨sound.types, sound.shapes, sound.lists, fun type mem =>
    grows.holds (sound.holds type mem)⟩, grows, rfl, rfl⟩

theorem Refines.bind {α β : Type} {stored : Storing α} {plain : Interning α}
    {next : α → Storing β} {next' : α → Interning β} (first : Refines stored plain storage)
    (rest : Refines (next (stored storage).1) (next' (stored storage).1) (stored storage).2) :
    Refines (stored >>= next) (plain >>= next') storage := by
  have run : (plain >>= next') storage.table
      = next' (stored storage).1 (stored storage).2.table := by
    rw [first.result, first.table]
    rfl
  refine ⟨rest.sound, first.grows.trans rest.grows, ?_, ?_⟩
  · rw [run]
    exact rest.result
  · rw [run]
    exact rest.table

theorem Holds.ne_intrinsic (holds : storage.Holds type) (k : Intrinsic) : type ≠ .intrinsic k := by
  rintro rfl
  exact holds

theorem Holds.entry_ne_intrinsic (holds : storage.Holds type) (k : Intrinsic) :
    storage.entry type ≠ .intrinsic k := by
  cases type with
  | intrinsic k => exact absurd rfl (holds.ne_intrinsic k)
  | _ => exact TypeEntry.noConfusion

theorem intern_eq_of_holds (holds : storage.Holds type) :
    Storing.intern type storage
      = (⟨TypeId.first + (storage.types.intern type).1⟩,
        { storage with types := (storage.types.intern type).2 }) := by
  cases type with
  | intrinsic k => exact absurd rfl (holds.ne_intrinsic k)
  | _ => rfl

/-- Storing a type adds its entry to the table. -/
theorem refines_intern (sound : storage.Sound) (type : StoredType) (holds : storage.Holds type) :
    Refines (Storing.intern type) (Interning.intern (storage.entry type)) storage := by
  have stores := intern_eq_of_holds holds
  have grows : storage.GrowsTo { storage with types := (storage.types.intern type).2 } :=
    ⟨Pool.prefix_intern type storage.types, List.prefix_rfl, List.prefix_rfl⟩
  have index := sound.idxOf?_entry holds
  cases found : storage.types.find? type with
  | some number =>
    have same : storage.types.intern type = (number, storage.types) := by
      rw [Pool.intern, found]
    have adds := TypeTable.intern_of_found holds.entry_ne_intrinsic (index.trans found)
    rw [same] at stores
    refine ⟨?_, ?_, ?_, ?_⟩ <;> rw [stores]
    · exact sound
    · exact .refl storage
    · rw [adds]
    · rw [adds]
  | none =>
    have same : storage.types.intern type = storage.types.insert type := by
      rw [Pool.intern, found]
    have adds := TypeTable.intern_of_new holds.entry_ne_intrinsic (index.trans found)
    refine ⟨?_, ?_, ?_, ?_⟩ <;> rw [stores]
    · refine ⟨sound.types.intern type, sound.shapes, sound.lists, fun other mem => ?_⟩
      have mem : other ∈ storage.types.items ++ [type] := by rwa [same] at mem
      rcases List.mem_append.1 mem with mem | mem
      · exact grows.holds (sound.holds other mem)
      · cases List.mem_singleton.1 mem
        exact grows.holds holds
    · exact grows
    · rw [adds, same]
      simp [Pool.insert, TypeTable.size, table]
    · rw [adds, same]
      simp only [table, Pool.insert, List.map_append, List.map_cons, List.map_nil]
      rfl

end Storage

end ModelForms
