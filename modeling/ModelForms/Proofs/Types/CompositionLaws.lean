import ModelForms.Proofs.Types.PropertyLaws
import ModelForms.Proofs.Types.Restoring

/-!
# The laws of composed models

Composing objects is an algebra: `&` is associative, leaving properties out twice is leaving them
out at once, and so on.  The laws hold of ids.  What the two sides of a law come to is the same
object type, so the side that is made second is found in the table and gets the id of the first.

A `Composition` is what is made by several operations, each of which interns an object and may
extend the table.  `Composition.properties?` says which properties it comes to from those of the
types it is made of, with no table in between, and `Composition.makes` that the operations come to
an object with just those.  So sides with the same properties are `Same`, and the laws of ids are
those of lists of properties.
-/

namespace ModelForms

/-- An object made of other objects. -/
inductive Composition where
  | type (id : TypeId)
  | without (base : Composition) (names : List String)
  | only (base : Composition) (names : List String)
  | allOptional (base : Composition)
  | extend (base extra : Composition)

namespace Composition

/-- Makes a composition, its operands first. -/
def make (models : Definitions) : Composition → OptionT Interning TypeId
  | .type id => return id
  | .without base names => do OptionT.mk (Interning.without models (← base.make models) names)
  | .only base names => do OptionT.mk (Interning.only models (← base.make models) names)
  | .allOptional base => do OptionT.mk (Interning.allOptional models (← base.make models))
  | .extend base extra => do
      OptionT.mk (Interning.extend models (← base.make models) (← extra.make models))

/-- The properties that a composition comes to. -/
def properties? (catalog : Catalog) : Composition → Option (List Property)
  | .type id => catalog.properties? id
  | .without base names => (base.properties? catalog).map (Property.without names)
  | .only base names => (base.properties? catalog).map (Property.only names)
  | .allOptional base => (base.properties? catalog).map Property.allOptional
  | .extend base extra => do
      return Property.merge (← base.properties? catalog) (← extra.properties? catalog)

/-- Whether an operation is left to be made. -/
def IsMade : Composition → Prop
  | .type _ => False
  | _ => True

end Composition

namespace Catalog

variable {catalog : Catalog} {id : TypeId} {properties : List Property}

/-! ## Objects -/

/-- A type that is an object once references are followed. -/
def IsObject (catalog : Catalog) (id : TypeId) : Prop :=
  ∃ target properties, catalog.resolve id = .ok target
    ∧ catalog.types.lookup target = some (.object properties)

/-- An object none of whose properties have the same name. -/
def IsPlainObject (catalog : Catalog) (id : TypeId) : Prop :=
  ∃ properties, catalog.properties? id = some properties ∧ (properties.map Property.name).Nodup

theorem isObject_iff :
    catalog.IsObject id ↔ ∃ properties, catalog.properties? id = some properties := by
  simp only [properties?_eq_some_iff]
  exact exists_comm

theorem properties?_eq_none_iff : catalog.properties? id = none ↔ ¬ catalog.IsObject id := by
  rw [isObject_iff, Option.eq_none_iff_forall_ne_some, not_exists]

theorem GrowsTo.properties?_eq_some {earlier later : Catalog} (grows : earlier.GrowsTo later)
    (h : earlier.properties? id = some properties) : later.properties? id = some properties := by
  obtain ⟨target, resolves, found⟩ := properties?_eq_some_iff.1 h
  exact properties?_eq_some_iff.2 ⟨target,
    grows.resolve_eq_ok (TypeTable.knows_of_lookup found) resolves, grows.types.lookup found⟩

theorem properties?_of_lookup (found : catalog.types.lookup id = some (.object properties)) :
    catalog.properties? id = some properties := by
  refine properties?_eq_some_iff.2 ⟨id, resolve_of_referenced?_eq_none ?_, found⟩
  simp [TypeTable.referenced?, found]

theorem WellFormed.knows_of_properties? (wf : catalog.WellFormed)
    (h : catalog.properties? id = some properties) :
    ∀ p ∈ properties, catalog.types.Knows p.type := by
  obtain ⟨target, _, found⟩ := properties?_eq_some_iff.1 h
  exact fun p mem => wf.types.knows_part found (List.mem_map_of_mem mem)

/-! ## One operation -/

/-- What gives an object leaves its catalog well-formed, and the object is stored under the id. -/
structure Stores (before : Catalog) (outcome : Option TypeId × TypeTable)
    (properties : List Property) (id : TypeId) : Prop where
  gives : outcome.1 = some id
  wellFormed : WellFormed ⟨outcome.2, before.models⟩
  grows : before.types.GrowsTo outcome.2
  found : outcome.2.lookup id = some (.object properties)

/-- An object with the properties of a type is what the type resolves to. -/
theorem Stores.eq_resolved {outcome : Option TypeId × TypeTable} {object : TypeId}
    (stores : catalog.Stores outcome properties object)
    (h : catalog.properties? id = some properties) : outcome.1 = some (catalog.resolved id) := by
  obtain ⟨target, resolves, found⟩ := properties?_eq_some_iff.1 h
  have same : object = target :=
    stores.wellFormed.types.lookup_injective stores.found (stores.grows.lookup found) (by simp)
  rw [stores.gives, resolved, resolves, same]

/-- An operation on one type gives nothing exactly if the type is no object. -/
theorem mapProperties_eq_none_iff {f : List Property → List Property} :
    (catalog.mapProperties id f catalog.types).1 = none ↔ ¬ catalog.IsObject id := by
  rw [← properties?_eq_none_iff]
  unfold mapProperties
  cases catalog.properties? id with
  | none => exact iff_of_true rfl rfl
  | some properties => exact iff_of_false (fun h => by cases h) (fun h => by cases h)

theorem extend_eq_none_iff {extra : TypeId} :
    (Interning.extend catalog.models id extra catalog.types).1 = none
      ↔ ¬ (catalog.IsObject id ∧ catalog.IsObject extra) := by
  rw [not_and_or, ← properties?_eq_none_iff, ← properties?_eq_none_iff]
  unfold Interning.extend
  rw [reading_eq]
  cases catalog.properties? id with
  | none => exact iff_of_true rfl (.inl rfl)
  | some properties =>
    cases catalog.properties? extra with
    | none => exact iff_of_true rfl (.inr rfl)
    | some added => exact iff_of_false (fun h => by cases h) (by simp)

theorem WellFormed.stores_object (wf : catalog.WellFormed)
    (known : ∀ p ∈ properties, catalog.types.Knows p.type) :
    ∃ id, catalog.Stores
      (some (Interning.object properties catalog.types).1,
        (Interning.object properties catalog.types).2) properties id := by
  obtain ⟨noted, same, eq⟩ := TypeTable.object_eq properties catalog.types
  have grows : catalog.types.GrowsTo noted := .of_entries_eq same
  have grows' := grows.trans (TypeTable.growsTo_intern (.object properties) noted)
  rw [eq]
  refine ⟨_, rfl, wf.of_types grows' ?_, grows', TypeTable.lookup_intern _ noted⟩
  refine (wf.types.of_entries_eq same).intern (fun part mem => ?_) (by simp)
  obtain ⟨p, mem', rfl⟩ := List.mem_map.1 mem
  exact grows.knows (known p mem')

theorem WellFormed.stores_mapProperties (wf : catalog.WellFormed)
    (h : catalog.properties? id = some properties) {f : List Property → List Property}
    (types : ∀ p ∈ f properties, ∃ q ∈ properties, q.type = p.type) :
    ∃ object, catalog.Stores (catalog.mapProperties id f catalog.types) (f properties) object := by
  have known : ∀ p ∈ f properties, catalog.types.Knows p.type := fun p mem => by
    obtain ⟨q, mem', same⟩ := types p mem
    exact same ▸ wf.knows_of_properties? h q mem'
  have made : catalog.mapProperties id f catalog.types
      = (some (Interning.object (f properties) catalog.types).1,
        (Interning.object (f properties) catalog.types).2) := by
    unfold mapProperties
    rw [h]
    rfl
  rw [made]
  exact wf.stores_object known

theorem WellFormed.stores_without (wf : catalog.WellFormed)
    (h : catalog.properties? id = some properties) (names : List String) :
    ∃ object, catalog.Stores (Interning.without catalog.models id names catalog.types)
      (Property.without names properties) object :=
  wf.stores_mapProperties h fun p mem => ⟨p, (List.mem_filter.1 mem).1, rfl⟩

theorem WellFormed.stores_only (wf : catalog.WellFormed)
    (h : catalog.properties? id = some properties) (names : List String) :
    ∃ object, catalog.Stores (Interning.only catalog.models id names catalog.types)
      (Property.only names properties) object :=
  wf.stores_mapProperties h fun p mem => ⟨p, (List.mem_filter.1 mem).1, rfl⟩

theorem WellFormed.stores_allOptional (wf : catalog.WellFormed)
    (h : catalog.properties? id = some properties) :
    ∃ object, catalog.Stores (Interning.allOptional catalog.models id catalog.types)
      (Property.allOptional properties) object := by
  refine wf.stores_mapProperties h fun p mem => ?_
  obtain ⟨q, mem', rfl⟩ := List.mem_map.1 mem
  exact ⟨q, mem', rfl⟩

theorem WellFormed.stores_extend (wf : catalog.WellFormed) {extra : TypeId}
    {added : List Property} (h : catalog.properties? id = some properties)
    (h' : catalog.properties? extra = some added) :
    ∃ object, catalog.Stores (Interning.extend catalog.models id extra catalog.types)
      (Property.merge properties added) object := by
  have known : ∀ p ∈ Property.merge properties added, catalog.types.Knows p.type := fun p mem =>
    (Closed.mem_of_mem_merge mem).elim (wf.knows_of_properties? h p) (wf.knows_of_properties? h' p)
  have made : Interning.extend catalog.models id extra catalog.types
      = (some (Interning.object (Property.merge properties added) catalog.types).1,
        (Interning.object (Property.merge properties added) catalog.types).2) := by
    unfold Interning.extend
    rw [reading_eq, h, h']
    rfl
  rw [made]
  exact wf.stores_object known

end Catalog

namespace Composition

open Catalog

section

variable {catalog : Catalog} {base extra : Composition} {listed added : List Property}

theorem properties?_without (h : base.properties? catalog = some listed) (names : List String) :
    (base.without names).properties? catalog = some (Property.without names listed) :=
  congrArg (Option.map (Property.without names)) h

theorem properties?_only (h : base.properties? catalog = some listed) (names : List String) :
    (base.only names).properties? catalog = some (Property.only names listed) :=
  congrArg (Option.map (Property.only names)) h

theorem properties?_allOptional (h : base.properties? catalog = some listed) :
    base.allOptional.properties? catalog = some (Property.allOptional listed) :=
  congrArg (Option.map Property.allOptional) h

theorem properties?_extend (h : base.properties? catalog = some listed)
    (h' : extra.properties? catalog = some added) :
    (base.extend extra).properties? catalog = some (Property.merge listed added) := by
  rw [properties?, h, h']
  rfl

end

/-- What has properties has them in every later catalog. -/
theorem properties?_eq_some {earlier later : Catalog} (grows : earlier.GrowsTo later)
    (composition : Composition) {properties : List Property}
    (h : composition.properties? earlier = some properties) :
    composition.properties? later = some properties := by
  induction composition generalizing properties with
  | type id => exact grows.properties?_eq_some h
  | without base names ih | only base names ih | allOptional base ih =>
    obtain ⟨listed, found, rfl⟩ := Option.map_eq_some_iff.1 h
    exact Option.map_eq_some_iff.2 ⟨listed, ih found, rfl⟩
  | extend base extra ih ih' =>
    obtain ⟨listed, found, h⟩ := Option.bind_eq_some_iff.1 h
    obtain ⟨added, found', h⟩ := Option.bind_eq_some_iff.1 h
    exact Option.bind_eq_some_iff.2 ⟨listed, ih found,
      Option.bind_eq_some_iff.2 ⟨added, ih' found', h⟩⟩

theorem run_bind {α β : Type} {first : OptionT Interning α} {next : α → OptionT Interning β}
    {table later : TypeTable} {a : α} (runs : first.run table = (some a, later)) :
    (first >>= next).run table = (next a).run later := by
  show StateT.run (OptionT.run (first >>= next)) table = _
  have first : StateT.run (OptionT.run first) table = (some a, later) := runs
  rw [OptionT.run_bind, Option.elimM, StateT.run_bind, first]
  rfl

/-- What making a composition comes to. -/
structure Makes (catalog : Catalog) (composition : Composition) (listed : List Property)
    (id : TypeId) (later : TypeTable) : Prop where
  runs : (composition.make catalog.models).run catalog.types = (some id, later)
  wellFormed : WellFormed ⟨later, catalog.models⟩
  grows : catalog.types.GrowsTo later
  properties : Catalog.properties? ⟨later, catalog.models⟩ id = some listed
  found : composition.IsMade → later.lookup id = some (.object listed)

/-- An operation on what is made. -/
theorem Makes.of_stores {catalog : Catalog} {composition : Composition} {listed : List Property}
    {later : TypeTable} {operation : Interning (Option TypeId)}
    (grows : catalog.types.GrowsTo later)
    (runs : (composition.make catalog.models).run catalog.types = operation later)
    (stores : ∃ object, Stores ⟨later, catalog.models⟩ (operation later) listed object) :
    ∃ id later, Makes catalog composition listed id later := by
  obtain ⟨object, stores⟩ := stores
  refine ⟨object, (operation later).2, ?_, stores.wellFormed, grows.trans stores.grows,
    properties?_of_lookup stores.found, fun _ => stores.found⟩
  exact runs.trans (Prod.ext stores.gives rfl)

/-- A composition that has properties is made, as an object with these properties. -/
theorem makes {catalog : Catalog} (wf : catalog.WellFormed) (composition : Composition)
    {listed : List Property} (h : composition.properties? catalog = some listed) :
    ∃ id later, Makes catalog composition listed id later := by
  induction composition generalizing catalog listed with
  | type id => exact ⟨id, catalog.types, rfl, wf, .refl _, h, False.elim⟩
  | without base names ih =>
    obtain ⟨properties, found, rfl⟩ := Option.map_eq_some_iff.1 h
    obtain ⟨id, later, makes⟩ := ih wf found
    exact Makes.of_stores makes.grows (run_bind makes.runs)
      (makes.wellFormed.stores_without makes.properties names)
  | only base names ih =>
    obtain ⟨properties, found, rfl⟩ := Option.map_eq_some_iff.1 h
    obtain ⟨id, later, makes⟩ := ih wf found
    exact Makes.of_stores makes.grows (run_bind makes.runs)
      (makes.wellFormed.stores_only makes.properties names)
  | allOptional base ih =>
    obtain ⟨properties, found, rfl⟩ := Option.map_eq_some_iff.1 h
    obtain ⟨id, later, makes⟩ := ih wf found
    exact Makes.of_stores makes.grows (run_bind makes.runs)
      (makes.wellFormed.stores_allOptional makes.properties)
  | extend base extra ih ih' =>
    obtain ⟨properties, found, h⟩ := Option.bind_eq_some_iff.1 h
    obtain ⟨added, found', h⟩ := Option.bind_eq_some_iff.1 h
    cases h
    obtain ⟨id, middle, makes⟩ := ih wf found
    have grows : catalog.GrowsTo ⟨middle, catalog.models⟩ := ⟨makes.grows, rfl⟩
    obtain ⟨id', later, makes'⟩ := ih' makes.wellFormed (extra.properties?_eq_some grows found')
    have grows' : GrowsTo ⟨middle, catalog.models⟩ ⟨later, catalog.models⟩ := ⟨makes'.grows, rfl⟩
    exact Makes.of_stores (makes.grows.trans makes'.grows)
      ((run_bind makes.runs).trans (run_bind makes'.runs))
      (makes'.wellFormed.stores_extend (grows'.properties?_eq_some makes.properties)
        makes'.properties)

/-! ## Compositions of the same properties -/

/-- The second composition is found where the first was made, whatever types were added since. -/
def Finds (catalog : Catalog) (first second : Composition) : Prop :=
  ∃ id, ((first.make catalog.models).run catalog.types).1 = some id
    ∧ ∀ later : TypeTable, ((first.make catalog.models).run catalog.types).2.GrowsTo later →
      WellFormed ⟨later, catalog.models⟩ → ((second.make catalog.models).run later).1 = some id

/-- Two compositions are the same type, in whichever order they are made. -/
structure Same (catalog : Catalog) (first second : Composition) : Prop where
  finds : Finds catalog first second
  finds' : Finds catalog second first

theorem finds_of_properties?_eq {catalog : Catalog} (wf : catalog.WellFormed)
    {first second : Composition} {listed : List Property} (made : first.IsMade)
    (made' : second.IsMade) (h : first.properties? catalog = some listed)
    (h' : second.properties? catalog = some listed) : Finds catalog first second := by
  obtain ⟨id, middle, makes⟩ := first.makes wf h
  refine ⟨id, by rw [makes.runs], fun later grows wf' => ?_⟩
  rw [makes.runs] at grows
  have grows' : catalog.GrowsTo ⟨later, catalog.models⟩ := ⟨makes.grows.trans grows, rfl⟩
  obtain ⟨id', last, makes'⟩ := second.makes wf' (second.properties?_eq_some grows' h')
  have same : id' = id := makes'.wellFormed.types.lookup_injective (makes'.found made')
    ((grows.trans makes'.grows).lookup (makes.found made)) (by simp)
  rw [makes'.runs, same]

/-- Compositions with the same properties are the same type. -/
theorem same_of_properties?_eq {catalog : Catalog} (wf : catalog.WellFormed)
    {first second : Composition} {listed : List Property} (made : first.IsMade)
    (made' : second.IsMade) (h : first.properties? catalog = some listed)
    (h' : second.properties? catalog = some listed) : Same catalog first second :=
  ⟨finds_of_properties?_eq wf made made' h h', finds_of_properties?_eq wf made' made h' h⟩

end Composition

/-! ## The laws -/

namespace Catalog

open ModelForms.Composition

/-- What the operations on objects satisfy. -/
structure CompositionLaws (catalog : Catalog) : Prop where
  extend_assoc : ∀ S T U, catalog.IsPlainObject S → catalog.IsPlainObject T →
    catalog.IsPlainObject U → Same catalog (.extend (.extend (.type S) (.type T)) (.type U))
      (.extend (.type S) (.extend (.type T) (.type U)))
  extend_self : ∀ T, catalog.IsPlainObject T →
    (Interning.extend catalog.models T T catalog.types).1 = some (catalog.resolved T)
  /-- An object without properties is the identity on both sides. -/
  extend_empty : ∀ T E, catalog.IsPlainObject T → catalog.properties? E = some [] →
    (Interning.extend catalog.models T E catalog.types).1 = some (catalog.resolved T)
      ∧ (Interning.extend catalog.models E T catalog.types).1 = some (catalog.resolved T)
  without_without : ∀ T K L, catalog.IsObject T →
    Same catalog (.without (.without (.type T) K) L) (.without (.type T) (K ++ L))
  only_only : ∀ T K L, catalog.IsObject T →
    Same catalog (.only (.only (.type T) K) L) (.only (.type T) (K.filter (L.contains ·)))
  /-- Picking twice keeps exactly the properties that are in both lists, in their order. -/
  only_only_properties : ∀ T K L properties, catalog.properties? T = some properties →
    ∃ id later, Makes catalog (.only (.only (.type T) K) L)
      (properties.filter fun p => p.name ∈ K ∧ p.name ∈ L) id later
  allOptional_allOptional : ∀ T, catalog.IsObject T →
    Same catalog (.allOptional (.allOptional (.type T))) (.allOptional (.type T))
  allOptional_without : ∀ T K, catalog.IsObject T →
    Same catalog (.allOptional (.without (.type T) K)) (.without (.allOptional (.type T)) K)
  allOptional_only : ∀ T K, catalog.IsObject T →
    Same catalog (.allOptional (.only (.type T) K)) (.only (.allOptional (.type T)) K)
  allOptional_extend : ∀ S T, catalog.IsPlainObject S → catalog.IsPlainObject T →
    Same catalog (.allOptional (.extend (.type S) (.type T)))
      (.extend (.allOptional (.type S)) (.allOptional (.type T)))
  /-- What was picked, with what was left out, has the properties that were there. -/
  extend_only_without : ∀ T K properties, catalog.properties? T = some properties →
    (properties.map Property.name).Nodup →
    ∃ listed id later,
      Makes catalog (.extend (.only (.type T) K) (.without (.type T) K)) listed id later
        ∧ listed.Perm properties
  /-- An operation gives nothing exactly if an operand is no object. -/
  without_eq_none_iff : ∀ T K,
    (Interning.without catalog.models T K catalog.types).1 = none ↔ ¬ catalog.IsObject T
  only_eq_none_iff : ∀ T K,
    (Interning.only catalog.models T K catalog.types).1 = none ↔ ¬ catalog.IsObject T
  allOptional_eq_none_iff : ∀ T,
    (Interning.allOptional catalog.models T catalog.types).1 = none ↔ ¬ catalog.IsObject T
  extend_eq_none_iff : ∀ S T, (Interning.extend catalog.models S T catalog.types).1 = none
    ↔ ¬ (catalog.IsObject S ∧ catalog.IsObject T)

/-- The laws hold in every well-formed catalog. -/
theorem compositionLaws {catalog : Catalog} (wf : catalog.WellFormed) :
    catalog.CompositionLaws := by
  have type {id : TypeId} {properties : List Property}
      (h : catalog.properties? id = some properties) :
      (Composition.type id).properties? catalog = some properties := h
  constructor
  case extend_assoc =>
    rintro S T U ⟨base, isBase, distinct⟩ ⟨extra, isExtra, distinct'⟩ ⟨more, isMore, distinct''⟩
    refine same_of_properties?_eq wf trivial trivial
      (properties?_extend (properties?_extend (type isBase) (type isExtra)) (type isMore)) ?_
    rw [Property.merge_assoc distinct distinct' distinct'']
    exact properties?_extend (type isBase) (properties?_extend (type isExtra) (type isMore))
  case extend_self =>
    rintro T ⟨properties, h, distinct⟩
    obtain ⟨object, stores⟩ := wf.stores_extend h h
    rw [Property.merge_self distinct] at stores
    exact stores.eq_resolved h
  case extend_empty =>
    rintro T E ⟨properties, h, distinct⟩ isEmpty
    obtain ⟨object, stores⟩ := wf.stores_extend h isEmpty
    obtain ⟨object', stores'⟩ := wf.stores_extend isEmpty h
    rw [Property.merge_nil distinct] at stores
    rw [Property.nil_merge distinct] at stores'
    exact ⟨stores.eq_resolved h, stores'.eq_resolved h⟩
  case without_without =>
    intro T K L isObject
    obtain ⟨properties, h⟩ := isObject_iff.1 isObject
    refine same_of_properties?_eq wf trivial trivial
      (properties?_without (properties?_without (type h) K) L) ?_
    rw [Property.without_without]
    exact properties?_without (type h) (K ++ L)
  case only_only =>
    intro T K L isObject
    obtain ⟨properties, h⟩ := isObject_iff.1 isObject
    refine same_of_properties?_eq wf trivial trivial
      (properties?_only (properties?_only (type h) K) L) ?_
    rw [Property.only_only]
    exact properties?_only (type h) _
  case only_only_properties =>
    intro T K L properties h
    have both := properties?_only (properties?_only (type h) K) L
    rw [Property.only_only_eq_filter] at both
    exact makes wf _ both
  case allOptional_allOptional =>
    intro T isObject
    obtain ⟨properties, h⟩ := isObject_iff.1 isObject
    refine same_of_properties?_eq wf trivial trivial
      (properties?_allOptional (properties?_allOptional (type h))) ?_
    rw [Property.allOptional_allOptional]
    exact properties?_allOptional (type h)
  case allOptional_without =>
    intro T K isObject
    obtain ⟨properties, h⟩ := isObject_iff.1 isObject
    refine same_of_properties?_eq wf trivial trivial
      (properties?_allOptional (properties?_without (type h) K)) ?_
    rw [Property.allOptional_without]
    exact properties?_without (properties?_allOptional (type h)) K
  case allOptional_only =>
    intro T K isObject
    obtain ⟨properties, h⟩ := isObject_iff.1 isObject
    refine same_of_properties?_eq wf trivial trivial
      (properties?_allOptional (properties?_only (type h) K)) ?_
    rw [Property.allOptional_only]
    exact properties?_only (properties?_allOptional (type h)) K
  case allOptional_extend =>
    rintro S T ⟨base, isBase, distinct⟩ ⟨extra, isExtra, distinct'⟩
    refine same_of_properties?_eq wf trivial trivial
      (properties?_allOptional (properties?_extend (type isBase) (type isExtra))) ?_
    rw [Property.allOptional_merge distinct distinct']
    exact properties?_extend (properties?_allOptional (type isBase))
      (properties?_allOptional (type isExtra))
  case extend_only_without =>
    intro T K properties h distinct
    obtain ⟨id, later, makes⟩ := makes wf _
      (properties?_extend (properties?_only (type h) K) (properties?_without (type h) K))
    exact ⟨_, id, later, makes, Property.merge_only_without_perm distinct K⟩
  case without_eq_none_iff => exact fun T K => mapProperties_eq_none_iff
  case only_eq_none_iff => exact fun T K => mapProperties_eq_none_iff
  case allOptional_eq_none_iff => exact fun T => mapProperties_eq_none_iff
  case extend_eq_none_iff => exact fun S T => extend_eq_none_iff

/-- A person, a reference to the model of persons, and an object that declares the age anew. -/
def staff : Catalog where
  types.entries := [.object [⟨"name", .ofIntrinsic .string, false⟩,
      ⟨"age", .ofIntrinsic .number, false⟩], .reference ⟨1⟩,
    .object [⟨"age", .ofIntrinsic .string, true⟩, ⟨"role", .ofIntrinsic .string, false⟩]]
  types.names := .builtin
  models.entries := [⟨"Person", some ⟨100⟩⟩]

/-- The two ways to add a role and the first declaration of the age to a person: each of them makes
another object on the way, but the second comes to the id of the first. -/
theorem compositionLaws_staff :
    staff.WellFormed ∧ staff.CompositionLaws
      ∧ ((Composition.make staff.models
          (.extend (.extend (.type ⟨101⟩) (.type ⟨102⟩)) (.type ⟨100⟩))).run staff.types).1
        = some ⟨104⟩
      ∧ ((Composition.make staff.models
          (.extend (.type ⟨101⟩) (.extend (.type ⟨102⟩) (.type ⟨100⟩)))).run
          ((Composition.make staff.models
            (.extend (.extend (.type ⟨101⟩) (.type ⟨102⟩)) (.type ⟨100⟩))).run staff.types).2).1
        = some ⟨104⟩ := by
  have wf : staff.WellFormed := by decide +kernel
  have laws := compositionLaws wf
  have person : staff.IsPlainObject ⟨100⟩ := ⟨_, rfl, by decide⟩
  have person_alias : staff.IsPlainObject ⟨101⟩ := ⟨_, rfl, by decide⟩
  have worker : staff.IsPlainObject ⟨102⟩ := ⟨_, rfl, by decide⟩
  obtain ⟨id, made, finds⟩ := (laws.extend_assoc _ _ _ person_alias worker person).finds
  have first : ((Composition.make staff.models
      (.extend (.extend (.type ⟨101⟩) (.type ⟨102⟩)) (.type ⟨100⟩))).run staff.types).1
        = some ⟨104⟩ := by
    decide +kernel
  cases made.symm.trans first
  exact ⟨wf, laws, first, finds _ (.refl _) (by decide +kernel)⟩

end Catalog

end ModelForms
