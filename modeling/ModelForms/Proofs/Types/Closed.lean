import ModelForms.Proofs.Entries
import ModelForms.Proofs.Types.Stripping
import ModelForms.Types.Composition

/-!
# Closed catalogs

A catalog that is made by adding types to it, each made of types that are known by then, is
`Closed`: it is well-formed, no object type has two properties of one name, and what is referred to
is reserved.  Every way of adding a type keeps this, compositions of objects included.

Every reference in a closed catalog is one to a reserved model.  So no chain of aliases breaks if
none breaks that starts at such a model.
-/

namespace ModelForms

/-! ## Reserving and defining -/

namespace Definitions

variable {defs : Definitions} {definition other : ModelId} {name : String} {body found : TypeId}

theorem contains_iff :
    defs.contains definition = true ↔ definition.index ≠ 0 ∧ definition.index ≤ defs.size := by
  unfold contains get? size
  cases definition.index with
  | zero => simp
  | succ i =>
    rw [Option.isSome_iff_ne_none, ne_eq, List.getElem?_eq_none_iff, Nat.not_le,
      and_iff_right i.succ_ne_zero, Nat.lt_iff_add_one_le]

theorem contains_of_find? (h : defs.find? name = some definition) :
    defs.contains definition = true := by
  obtain ⟨_, entry, _⟩ := Option.map_eq_some_iff.1 (name?_eq_some_of_find? h)
  simp [contains, entry]

/-- The reserved names in the order of their handles. -/
def names (defs : Definitions) : List String := defs.entries.map Definition.name

theorem names_define : (defs.define definition body).2.names = defs.names := by
  unfold define names
  split
  · refine List.ext_getElem? fun i => ?_
    rw [List.getElem?_map, List.getElem?_map, List.getElem?_modify]
    cases defs.entries[i]? with
    | none => rfl
    | some entry => split <;> rfl
  · rfl

section

variable {later : Definitions}

theorem contains_eq_of_names_eq (same : later.names = defs.names) (definition : ModelId) :
    later.contains definition = defs.contains definition := by
  have size_eq : later.size = defs.size := by
    simpa [names, size] using congrArg List.length same
  rw [Bool.eq_iff_iff, contains_iff, contains_iff, size_eq]

theorem find?_eq_of_names_eq (same : later.names = defs.names) (name : String) :
    later.find? name = defs.find? name := by
  have at_names (defs : Definitions) :
      defs.entries.findIdx? (·.name == name) = defs.names.findIdx? (· == name) := by
    unfold names
    rw [List.findIdx?_map]
    rfl
  unfold find?
  rw [at_names, at_names, same]

end

theorem contains_define :
    (defs.define definition body).2.contains other = defs.contains other :=
  contains_eq_of_names_eq names_define other

/-- A name keeps its handle when others are reserved. -/
theorem find?_reserve_of_eq_some {known : String} (h : defs.find? known = some definition) :
    (defs.reserve name).2.find? known = some definition := by
  unfold reserve
  split
  · exact h
  · obtain ⟨i, found, rfl⟩ := Option.map_eq_some_iff.1 h
    unfold find?
    rw [List.findIdx?_append, found]
    rfl

/-- Only the model that is defined has another body. -/
theorem body?_of_define (h : (defs.define definition body).2.body? other = some found) :
    found = body ∨ defs.body? other = some found := by
  unfold define at h
  split at h
  · obtain ⟨entry, at_other, is_body⟩ := Option.bind_eq_some_iff.1 h
    unfold get? at at_other
    split at at_other
    · cases at_other
    · rename_i i hi
      rw [List.getElem?_modify] at at_other
      obtain ⟨old, at_old, rfl⟩ := Option.map_eq_some_iff.1 at_other
      split at is_body
      · cases is_body
        exact Or.inl rfl
      · refine Or.inr (Option.bind_eq_some_iff.2 ⟨old, ?_, is_body⟩)
        unfold get?
        rw [hi]
        exact at_old
  · exact Or.inr h

/-- Reserving a name gives out at most the handle of the name. -/
theorem contains_reserve_iff :
    (defs.reserve name).2.contains other = true
      ↔ defs.contains other = true ∨ other = (defs.reserve name).1 := by
  unfold reserve
  split
  · rename_i h
    exact ⟨Or.inl, fun h' => h'.elim id fun same => same ▸ contains_of_find? h⟩
  · obtain ⟨index⟩ := other
    simp only [contains_iff, size, List.length_append, List.length_singleton, ModelId.mk.injEq]
    omega

theorem body?_of_reserve (h : (defs.reserve name).2.body? definition = some found) :
    defs.body? definition = some found := by
  unfold reserve at h
  split at h
  · exact h
  · obtain ⟨entry, at_definition, is_body⟩ := Option.bind_eq_some_iff.1 h
    unfold get? at at_definition
    split at at_definition
    · cases at_definition
    · rename_i i hi
      refine Option.bind_eq_some_iff.2 ⟨entry, ?_, is_body⟩
      unfold get?
      rw [hi]
      rw [List.getElem?_append] at at_definition
      split at at_definition
      · exact at_definition
      · rw [List.mem_singleton.1 (List.mem_of_getElem? at_definition)] at is_body
        cases is_body

end Definitions

namespace Catalog

/-! ## Adding types -/

/-- A catalog whose types refer to what is there. -/
structure Closed (catalog : Catalog) : Prop where
  wellFormed : catalog.WellFormed
  distinct : catalog.types.DistinctNames
  /-- The models that are referred to are reserved. -/
  reserved : ∀ definition, .reference definition ∈ catalog.types.entries →
    catalog.models.contains definition = true

/-- A catalog that is closed still with more types, and knows an id then. -/
structure Adds (before : Catalog) (id : TypeId) (after : TypeTable) : Prop where
  closed : Closed ⟨after, before.models⟩
  grows : before.types.GrowsTo after
  knows : after.Knows id

namespace Closed

variable {catalog : Catalog} {id : TypeId}

theorem empty : Closed ⟨.empty, .empty⟩ where
  wellFormed := ⟨.empty, fun _ _ h => by
    obtain ⟨_, found, _⟩ := Option.bind_eq_some_iff.1 h
    unfold Definitions.get? Definitions.empty at found
    split at found <;> simp at found⟩
  distinct := fun _ h => absurd h List.not_mem_nil
  reserved := fun _ h => absurd h List.not_mem_nil

/-- Names have no part in what a closed catalog is. -/
theorem of_entries_eq (closed : catalog.Closed) {types : TypeTable}
    (same : types.entries = catalog.types.entries) : Closed ⟨types, catalog.models⟩ where
  wellFormed := closed.wellFormed.of_types (.of_entries_eq same)
    (closed.wellFormed.types.of_entries_eq same)
  distinct := fun properties h => closed.distinct properties (same ▸ h)
  reserved := fun definition h => closed.reserved definition (same ▸ h)

/-- Reserving a name keeps a catalog closed: no type refers to the new model yet, and it has no
body. -/
theorem reserve (closed : catalog.Closed) (name : String) :
    Closed ⟨catalog.types, (catalog.models.reserve name).2⟩ where
  wellFormed := ⟨closed.wellFormed.types, fun definition body has =>
    closed.wellFormed.bodies definition body (Definitions.body?_of_reserve has)⟩
  distinct := closed.distinct
  reserved := fun definition refers =>
    Definitions.contains_reserve_iff.2 (.inl (closed.reserved definition refers))

theorem adds_intern (closed : catalog.Closed) {entry : TypeEntry}
    (parts : ∀ part ∈ entry.parts, catalog.types.Knows part)
    (normal : ∀ members, entry = .union members → catalog.types.NormalUnion members)
    (names : (entry.properties.map Property.name).Nodup)
    (reserved : ∀ definition, entry = .reference definition →
      catalog.models.contains definition = true) :
    catalog.Adds (Interning.intern entry catalog.types).1
      (Interning.intern entry catalog.types).2 := by
  have grows := TypeTable.growsTo_intern entry catalog.types
  have mem {other : TypeEntry} (h : other ∈ (Interning.intern entry catalog.types).2.entries) :
      other ∈ catalog.types.entries ∨ other = entry := by
    rcases TypeTable.entries_intern entry catalog.types with he | he
    · exact Or.inl (he ▸ h)
    · simpa [he] using h
  refine ⟨⟨closed.wellFormed.of_types grows (closed.wellFormed.types.intern parts normal), ?_, ?_⟩,
    grows, TypeTable.knows_intern entry catalog.types⟩
  · intro properties h
    rcases mem h with h | rfl
    · exact closed.distinct properties h
    · exact names
  · intro definition h
    rcases mem h with h | rfl
    · exact closed.reserved definition h
    · exact reserved definition rfl

theorem adds_noted (closed : catalog.Closed) {noted : TypeTable}
    (same : noted.entries = catalog.types.entries) {entry : TypeEntry}
    (parts : ∀ part ∈ entry.parts, catalog.types.Knows part)
    (normal : ∀ members, entry ≠ .union members)
    (names : (entry.properties.map Property.name).Nodup)
    (reserved : ∀ definition, entry ≠ .reference definition) :
    catalog.Adds (Interning.intern entry noted).1 (Interning.intern entry noted).2 := by
  have grows := TypeTable.GrowsTo.of_entries_eq same
  have adds := (closed.of_entries_eq same).adds_intern (fun part h => grows.knows (parts part h))
    (fun members h => absurd h (normal members)) names
    (fun definition h => absurd h (reserved definition))
  exact ⟨adds.closed, grows.trans adds.grows, adds.knows⟩

theorem adds_literal (closed : catalog.Closed) (value : Literal) :
    catalog.Adds (Interning.literal value catalog.types).1
      (Interning.literal value catalog.types).2 := by
  obtain ⟨noted, same, heq⟩ := TypeTable.literal_eq value catalog.types
  rw [heq]
  exact closed.adds_noted same (by simp [TypeEntry.parts]) (by simp) .nil (by simp)

theorem adds_leaf (closed : catalog.Closed) (name : String) :
    catalog.Adds (Interning.leaf name catalog.types).1 (Interning.leaf name catalog.types).2 :=
  @adds_noted _ closed (Interning.note name catalog.types).2 rfl (.leaf name)
    (by simp [TypeEntry.parts]) (by simp) .nil (by simp)

theorem adds_object (closed : catalog.Closed) {properties : List Property}
    (known : ∀ p ∈ properties, catalog.types.Knows p.type)
    (names : (properties.map Property.name).Nodup) :
    catalog.Adds (Interning.object properties catalog.types).1
      (Interning.object properties catalog.types).2 := by
  obtain ⟨noted, same, heq⟩ := TypeTable.object_eq properties catalog.types
  rw [heq]
  refine closed.adds_noted same (fun part h => ?_) (by simp) names (by simp)
  obtain ⟨p, hp, rfl⟩ := List.mem_map.1 h
  exact known p hp

theorem adds_array (closed : catalog.Closed) {element : TypeId}
    (known : catalog.types.Knows element) :
    catalog.Adds (Interning.array element catalog.types).1
      (Interning.array element catalog.types).2 :=
  closed.adds_intern (by simpa [TypeEntry.parts] using known) (by simp) .nil (by simp)

theorem adds_reference (closed : catalog.Closed) {definition : ModelId}
    (reserved : catalog.models.contains definition = true) :
    catalog.Adds (Interning.reference definition catalog.types).1
      (Interning.reference definition catalog.types).2 :=
  closed.adds_intern (by simp [TypeEntry.parts]) (by simp) .nil
    fun other h => by
      cases h
      exact reserved

theorem adds_union (closed : catalog.Closed) {members : List TypeId}
    (known : ∀ m ∈ members, catalog.types.Knows m) :
    catalog.Adds (Interning.union members catalog.types).1
      (Interning.union members catalog.types).2 := by
  obtain ⟨⟨wf, adds, knows⟩, _⟩ := TypeTable.union_spec closed.wellFormed.types known
  refine ⟨⟨closed.wellFormed.of_types adds.growsTo wf, closed.distinct.addsUnions adds, ?_⟩,
    adds.growsTo, knows⟩
  obtain ⟨added, hadded, unions⟩ := adds
  intro definition h
  rw [hadded] at h
  rcases List.mem_append.1 h with h | h
  · exact closed.reserved definition h
  · obtain ⟨ms, hms⟩ := unions _ h
    cases hms

theorem adds_nullable (closed : catalog.Closed) (known : catalog.types.Knows id) :
    catalog.Adds (Interning.nullable id catalog.types).1
      (Interning.nullable id catalog.types).2 :=
  closed.adds_union (by simpa using ⟨known, TypeTable.knows_intrinsic catalog.types .null⟩)

end Closed

/-! ## Composing objects -/

/-- A composition adds the type that it gives, if it gives one. -/
def Composes (before : Catalog) (outcome : Option TypeId × TypeTable) : Prop :=
  ∀ id, outcome.1 = some id → before.Adds id outcome.2

theorem reading_eq {α : Type} (catalog : Catalog) (f : Catalog → Interning α) :
    Interning.reading catalog.models f catalog.types = f catalog catalog.types :=
  rfl

/-- The properties of a type are those of the object at the end of its chain of aliases. -/
theorem properties?_eq_some_iff {catalog : Catalog} {id : TypeId} {properties : List Property} :
    catalog.properties? id = some properties
      ↔ ∃ target, catalog.resolve id = .ok target
        ∧ catalog.types.lookup target = some (.object properties) := by
  unfold properties? classify
  cases resolves : catalog.resolve id with
  | error broken => simp
  | ok target =>
    simp only [Except.ok.injEq, exists_eq_left', ← classOfEntry_eq_object_iff]
    cases classOfEntry (catalog.types.lookup target) <;> simp

namespace Closed

variable {catalog : Catalog} {id : TypeId}

theorem of_properties? (closed : catalog.Closed) {properties : List Property}
    (h : catalog.properties? id = some properties) :
    (∀ p ∈ properties, catalog.types.Knows p.type) ∧ (properties.map Property.name).Nodup := by
  obtain ⟨target, _, found⟩ := properties?_eq_some_iff.1 h
  exact ⟨fun p hp => closed.wellFormed.types.knows_part found (List.mem_map_of_mem hp),
    closed.distinct properties (TypeTable.mem_entries_of_lookup found (by simp))⟩

/-- What is made of the properties of one object is an object, if it has some of their types under
distinct names. -/
theorem composes_mapProperties (closed : catalog.Closed) {f : List Property → List Property}
    (types : ∀ properties, ∀ p ∈ f properties, ∃ q ∈ properties, q.type = p.type)
    (names : ∀ properties, (properties.map Property.name).Nodup →
      ((f properties).map Property.name).Nodup) :
    catalog.Composes (catalog.mapProperties id f catalog.types) := by
  intro result h
  unfold mapProperties at h ⊢
  cases hp : catalog.properties? id with
  | none =>
    rw [hp] at h
    cases h
  | some properties =>
    rw [hp] at h
    cases h
    obtain ⟨known, distinct⟩ := closed.of_properties? hp
    refine closed.adds_object (fun p hp => ?_) (names properties distinct)
    obtain ⟨q, hq, same⟩ := types properties p hp
    exact same ▸ known q hq

theorem composes_filter (closed : catalog.Closed) (keeps : Property → Bool) :
    catalog.Composes (catalog.mapProperties id (List.filter keeps) catalog.types) :=
  closed.composes_mapProperties (fun _ p hp => ⟨p, (List.mem_filter.1 hp).1, rfl⟩)
    fun _ distinct => distinct.sublist (List.filter_sublist.map _)

theorem composes_without (closed : catalog.Closed) (keys : List String) :
    catalog.Composes (Interning.without catalog.models id keys catalog.types) :=
  closed.composes_filter _

theorem composes_only (closed : catalog.Closed) (keys : List String) :
    catalog.Composes (Interning.only catalog.models id keys catalog.types) :=
  closed.composes_filter _

theorem composes_allOptional (closed : catalog.Closed) :
    catalog.Composes (Interning.allOptional catalog.models id catalog.types) :=
  @composes_mapProperties _ id closed Property.allOptional
    (fun _ p hp => by
      obtain ⟨q, hq, rfl⟩ := List.mem_map.1 hp
      exact ⟨q, hq, rfl⟩)
    fun _ distinct => by
      rw [Property.allOptional, List.map_map]
      exact distinct

/-- The merged properties are properties of the two objects. -/
theorem mem_of_mem_merge {base extra : List Property} {p : Property}
    (h : p ∈ Property.merge base extra) : p ∈ base ∨ p ∈ extra := by
  obtain ⟨entry, hentry, rfl⟩ := List.mem_map.1 h
  obtain ⟨q, hq, rfl⟩ := List.mem_map.1 (Entries.mem_of_mem_collect hentry)
  exact List.mem_append.1 hq

theorem nodup_names_merge (base extra : List Property) :
    ((Property.merge base extra).map Property.name).Nodup := by
  have keys : (Property.merge base extra).map Property.name
      = (Entries.collect ((base ++ extra).map fun p => (p.name, p))).keys := by
    rw [Property.merge, List.map_map, Entries.keys]
    refine List.map_congr_left fun entry hentry => ?_
    obtain ⟨q, _, rfl⟩ := List.mem_map.1 (Entries.mem_of_mem_collect hentry)
    rfl
  rw [keys]
  exact Entries.nodup_keys_collect _

theorem composes_extend (closed : catalog.Closed) (base extra : TypeId) :
    catalog.Composes (Interning.extend catalog.models base extra catalog.types) := by
  intro result h
  unfold Interning.extend at h ⊢
  rw [reading_eq] at h ⊢
  cases hbase : catalog.properties? base with
  | none =>
    rw [hbase] at h
    cases h
  | some properties =>
    cases hextra : catalog.properties? extra with
    | none =>
      rw [hbase, hextra] at h
      cases h
    | some added =>
      rw [hbase, hextra] at h
      cases h
      refine closed.adds_object (fun p hp => ?_) (nodup_names_merge properties added)
      rcases mem_of_mem_merge hp with hp | hp
      · exact (closed.of_properties? hbase).1 p hp
      · exact (closed.of_properties? hextra).1 p hp

end Closed

/-! ## Chains -/

/-- The chain of aliases that starts at a model ends. -/
def Ends (catalog : Catalog) (definition : ModelId) : Prop :=
  ∃ id target, catalog.types.lookup id = some (.reference definition)
    ∧ catalog.resolve id = .ok target

theorem Ends.growsTo {earlier later : Catalog} (grows : earlier.GrowsTo later)
    (wf : earlier.WellFormed) {definition : ModelId} (ends : earlier.Ends definition) :
    later.Ends definition := by
  obtain ⟨id, target, found, resolves⟩ := ends
  exact ⟨id, target, grows.types.lookup found,
    (grows.resolve_eq wf (TypeTable.knows_of_lookup found)).trans resolves⟩

/-- A closed catalog in which the chain of every reserved model ends is unbroken. -/
theorem Closed.unbroken {catalog : Catalog} (closed : catalog.Closed)
    (ends : ∀ definition, catalog.models.contains definition = true → catalog.Ends definition) :
    catalog.Unbroken := by
  intro id
  cases hr : catalog.types.referenced? id with
  | none => exact ⟨id, resolve_of_referenced?_eq_none hr⟩
  | some definition =>
    have found := TypeTable.referenced?_eq_some_iff.1 hr
    obtain ⟨other, target, found', resolves⟩ := ends definition
      (closed.reserved definition (TypeTable.mem_entries_of_lookup found (by simp)))
    rw [closed.wellFormed.types.lookup_injective found found' (by simp)]
    exact ⟨target, resolves⟩

/-- A closed catalog in which no models are reserved but some with their names, and each of them has
a body at the end of its chain. -/
structure Complete (catalog : Catalog) (models : Entries ModelId) : Prop where
  closed : catalog.Closed
  handles : ∀ definition, catalog.models.contains definition = true
    ↔ ∃ model ∈ models, model.2 = definition
  names : ∀ model ∈ models, catalog.models.find? model.1 = some model.2
  ends : ∀ model ∈ models, catalog.Ends model.2

theorem Complete.unbroken {catalog : Catalog} {models : Entries ModelId}
    (complete : catalog.Complete models) : catalog.Unbroken := by
  refine complete.closed.unbroken fun definition reserved => ?_
  obtain ⟨model, hmodel, rfl⟩ := (complete.handles definition).1 reserved
  exact complete.ends model hmodel

end Catalog

end ModelForms
