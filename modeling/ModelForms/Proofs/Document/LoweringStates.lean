import ModelForms.Proofs.Document.Dependencies
import ModelForms.Proofs.Document.Lowered
import ModelForms.Proofs.Types.BrokenChains

/-!
# States of a lowering

While models are lowered, a state is `Faithful` to what the document means: the body of each model
that has one is of the structure that the model's value means.  The models that are under way have
no body yet, each of them is composed from the next, and an attempt was counted for each of them
and for each model that has a body.

Most steps only add types.  They keep a state faithful (`LoweringState.Faithful.advances`),
whichever types they add.  So what is left to say of a step is what the type that it gives is.
-/

namespace ModelForms

/-- What there is before the first model is lowered. -/
structure Groundwork where
  glossary : Glossary
  /-- The ids of the leaves. -/
  leaves : Entries TypeId
  /-- The models with their handles, in the order of the document. -/
  declared : Entries ModelId
  /-- The models, none of them lowered yet. -/
  reserved : Definitions
  distinct : reserved.names.Nodup
  handles : ∀ model ∈ declared, reserved.find? model.1 = some model.2
  declares : ∀ name ∈ reserved.names, name ∈ declared.keys
  models : ∀ name, name ∈ reserved.names ↔ (glossary.valueOf name).isSome = true
  leafNames : ∀ name, name ∈ glossary.leaves ↔ (leaves.lookup name).isSome = true

namespace Groundwork

variable (ground : Groundwork)

/-- The name of a handle. -/
def nameOf (definition : ModelId) : String := ground.reserved.describe definition

/-- The models of the document are those of the catalog. -/
theorem lookup_declared (name : String) :
    ground.declared.lookup name = ground.reserved.find? name := by
  refine Option.ext fun definition =>
    ⟨fun found => ground.handles _ (Entries.mem_of_lookup found), fun found => ?_⟩
  have mem := ground.declares name
    (Definitions.mem_names_of_name? (Definitions.name?_eq_some_of_find? found))
  obtain ⟨other, is⟩ := Option.isSome_iff_exists.1 (Entries.hasKey_iff.2 mem)
  rw [is, ← found, ground.handles _ (Entries.mem_of_lookup is)]

/-- A handle has the name in the document that it has in the catalog. -/
theorem name?_declared (definition : ModelId) :
    (ground.declared.find? fun model => model.2 = definition).map Prod.fst
      = ground.reserved.name? definition := by
  have named {model : String × ModelId} (mem : model ∈ ground.declared) :
      ground.reserved.name? model.2 = some model.1 :=
    Definitions.name?_eq_some_of_find? (ground.handles model mem)
  cases found : ground.declared.find? fun model => model.2 = definition with
  | some model =>
    have is : model.2 = definition := by simpa using List.find?_some found
    rw [Option.map_some, ← is, named (List.mem_of_find?_eq_some found)]
  | none =>
    rw [Option.map_none, eq_comm, Option.eq_none_iff_forall_ne_some]
    intro name is
    obtain ⟨model, mem, rfl⟩ :=
      List.mem_map.1 (ground.declares name (Definitions.mem_names_of_name? is))
    refine List.find?_eq_none.1 found model mem ?_
    simpa using Definitions.eq_of_name?_eq ground.distinct (named mem) is

/-- The guard follows the models under way: they have no body, and each of them is composed from the
one that was entered after it. -/
structure Tracks (models : Definitions) (guard : Guard ModelId) : Prop where
  chain : (guard.keys.map ground.nameOf).IsChain fun a b => ground.glossary.ComposedFrom b a
  undefined : ∀ definition ∈ guard.keys, models.body? definition = none
  reserved : ∀ definition ∈ guard.keys, models.contains definition = true
  distinct : guard.keys.Nodup
  maxDepth : guard.maxDepth = Limits.modelDepth
  maxAttempts : guard.maxAttempts = Limits.expansionSteps
  attempts : guard.attempts ≤ Limits.expansionSteps
  /-- An attempt was made for each model that is or was under way. -/
  counted : ∃ finished : List ModelId, finished.Nodup
    ∧ (∀ definition, definition ∈ finished ↔ models.isDefined definition = true)
    ∧ guard.attempts = finished.length + guard.keys.length

end Groundwork

namespace LoweringState

open Relation

variable {ground : Groundwork} {before middle after state : LoweringState} {id target : TypeId}
  {definition other : ModelId} {listed : NamedProperties}

/-- The models that are lowered mean what the document says. -/
structure Faithful (state : LoweringState) (ground : Groundwork) : Prop where
  sound : state.Sound ground.leaves
  declared : state.declared = ground.declared
  names : state.catalog.models.names = ground.reserved.names
  leafTerms : ∀ name id, ground.leaves.lookup name = some id →
    state.catalog.namedTerm id = .leaf name
  bodies : ∀ definition body, state.catalog.models.body? definition = some body →
    ground.glossary.Means (ground.nameOf definition) (state.catalog.namedTerm body)
  tracks : ground.Tracks state.catalog.models state.underway

/-- A faithful state with more types than an earlier one, and no fewer bodies. -/
structure Advances (before : LoweringState) (ground : Groundwork) (after : LoweringState) :
    Prop where
  faithful : after.Faithful ground
  types : before.catalog.types.GrowsTo after.catalog.types
  bodies : ∀ definition body, before.catalog.models.body? definition = some body →
    after.catalog.models.body? definition = some body
  keys : after.underway.keys = before.underway.keys

theorem Advances.refl (faithful : before.Faithful ground) : before.Advances ground before :=
  ⟨faithful, .refl _, fun _ _ h => h, rfl⟩

theorem Advances.trans (h : before.Advances ground middle) (h' : middle.Advances ground after) :
    before.Advances ground after :=
  ⟨h'.faithful, h.types.trans h'.types, fun definition body defined =>
    h'.bodies definition body (h.bodies definition body defined), h'.keys.trans h.keys⟩

namespace Faithful

variable (faithful : state.Faithful ground)

include faithful

theorem closed : state.catalog.Closed := faithful.sound.closed

theorem wellFormed : state.catalog.types.WellFormed := faithful.closed.wellFormed.types

theorem distinct : state.catalog.models.names.Nodup := faithful.names ▸ ground.distinct

theorem name?_eq (definition : ModelId) :
    state.catalog.models.name? definition = ground.reserved.name? definition :=
  Definitions.name?_eq_of_names_eq faithful.names definition

theorem lookup_declared (name : String) :
    state.declared.lookup name = state.catalog.models.find? name := by
  rw [faithful.declared, ground.lookup_declared, Definitions.find?_eq_of_names_eq faithful.names]

theorem nameOf?_eq (definition : ModelId) :
    state.nameOf? definition = ground.reserved.name? definition := by
  rw [LoweringState.nameOf?, faithful.declared, ground.name?_declared]

theorem size_eq : state.catalog.models.size = ground.reserved.size := by
  simpa [Definitions.size, Definitions.names] using congrArg List.length faithful.names

theorem describe_eq (definition : ModelId) :
    state.catalog.models.describe definition = ground.nameOf definition := by
  unfold Groundwork.nameOf Definitions.describe
  rw [faithful.name?_eq]

theorem nameOf_of_name? {name : String}
    (named : state.catalog.models.name? definition = some name) :
    ground.nameOf definition = name := by
  rw [← faithful.describe_eq, Definitions.describe_eq_of_name? named]

theorem nameOf_of_find? {name : String}
    (found : state.catalog.models.find? name = some definition) :
    ground.nameOf definition = name :=
  faithful.nameOf_of_name? (Definitions.name?_eq_some_of_find? found)

theorem namedTerm_reference (reference : state.catalog.types.referenced? id = some definition) :
    state.catalog.namedTerm id = .reference (ground.nameOf definition) := by
  rw [Catalog.namedTerm_of_lookup faithful.wellFormed
    (TypeTable.referenced?_eq_some_iff.1 reference), Catalog.namedEntry, faithful.describe_eq]

theorem contains_of_referenced? (reference : state.catalog.types.referenced? id = some definition) :
    state.catalog.models.contains definition = true :=
  faithful.closed.reserved definition (TypeTable.mem_entries_of_lookup
    (TypeTable.referenced?_eq_some_iff.1 reference) (by simp))

/-- A type with the structure of a reference is one. -/
theorem exists_referenced? (known : state.catalog.types.Knows id) {name : String}
    (reference : state.catalog.namedTerm id = .reference name) :
    ∃ definition, state.catalog.types.referenced? id = some definition := by
  obtain ⟨entry, found⟩ := Option.isSome_iff_exists.1 known
  rw [Catalog.namedTerm_of_lookup faithful.wellFormed found] at reference
  cases entry with
  | reference definition => exact ⟨definition, TypeTable.referenced?_eq_some_iff.2 found⟩
  | _ => cases reference

/-- A known type keeps its structure. -/
theorem namedTerm_eq (advances : state.Advances ground after)
    (known : state.catalog.types.Knows id) :
    after.catalog.namedTerm id = state.catalog.namedTerm id :=
  Catalog.namedTerm_eq_of_growsTo faithful.wellFormed advances.types
    (advances.faithful.names.trans faithful.names.symm) known

/-- Adding types keeps a state faithful. -/
theorem advances {types : TypeTable} (closed : Catalog.Closed ⟨types, state.catalog.models⟩)
    (grows : state.catalog.types.GrowsTo types) :
    state.Advances ground (state.withTypes types) := by
  have same {id : TypeId} (known : state.catalog.types.Knows id) :
      (state.withTypes types).catalog.namedTerm id = state.catalog.namedTerm id :=
    Catalog.namedTerm_eq_of_growsTo faithful.wellFormed grows rfl known
  refine ⟨⟨⟨closed, fun name id found => grows.knows (faithful.sound.leaves name id found),
    faithful.sound.declared⟩, faithful.declared, faithful.names, fun name id found => ?_,
    fun definition body defined => ?_, faithful.tracks⟩, grows, fun _ _ h => h, rfl⟩
  · rw [same (faithful.sound.leaves name id found)]
    exact faithful.leafTerms name id found
  · rw [same (faithful.closed.wellFormed.bodies definition body defined)]
    exact faithful.bodies definition body defined

/-! ## Chains of aliases -/

theorem alias_of_links (links : state.catalog.Links definition other) :
    ground.glossary.Alias (ground.nameOf definition) (ground.nameOf other) := by
  obtain ⟨body, defined, reference⟩ := links
  have means := faithful.bodies definition body defined
  rwa [faithful.namedTerm_reference reference] at means

theorem reflTransGen_alias (reaches : ReflTransGen state.catalog.Links definition other) :
    ReflTransGen ground.glossary.Alias (ground.nameOf definition) (ground.nameOf other) :=
  reaches.lift ground.nameOf fun _ _ => faithful.alias_of_links

theorem transGen_alias (reaches : TransGen state.catalog.Links definition other) :
    TransGen ground.glossary.Alias (ground.nameOf definition) (ground.nameOf other) :=
  reaches.lift ground.nameOf fun _ _ => faithful.alias_of_links

theorem isChain_alias {chain : List ModelId} (links : chain.IsChain state.catalog.Links) :
    (chain.map ground.nameOf).IsChain ground.glossary.Alias :=
  List.isChain_map_of_isChain ground.nameOf (fun _ _ => faithful.alias_of_links) links

/-- All types on a chain of aliases have the same properties, if any. -/
theorem hasProperties_iff (leads : state.catalog.LeadsTo id target) :
    ground.glossary.HasProperties (state.catalog.namedTerm id) listed
      ↔ ground.glossary.HasProperties (state.catalog.namedTerm target) listed := by
  induction leads with
  | here => exact Iff.rfl
  | @onwards _ body _ definition reference defined _ ih =>
    have means := faithful.bodies definition body defined
    rw [faithful.namedTerm_reference reference, Glossary.hasProperties_reference_iff,
      Glossary.lists_iff, ← ih]
    constructor
    · rintro ⟨term, means', has⟩
      rwa [means.unique means']
    · exact fun has => ⟨_, means, has⟩

/-- A type that is no reference has properties exactly if it is an object. -/
theorem hasProperties_iff_of_referenced? (known : state.catalog.types.Knows target)
    (ends : state.catalog.types.referenced? target = none) :
    ground.glossary.HasProperties (state.catalog.namedTerm target) listed
      ↔ ∃ properties, state.catalog.types.lookup target = some (.object properties)
        ∧ listed = properties.map state.catalog.namedProperty := by
  obtain ⟨entry, found⟩ := Option.isSome_iff_exists.1 known
  rw [Catalog.namedTerm_of_lookup faithful.wellFormed found, found]
  cases entry with
  | object properties =>
    rw [Catalog.namedEntry, Glossary.hasProperties_object_iff]
    simp
  | reference definition => simp [TypeTable.referenced?, found] at ends
  | intrinsic | literal | leaf | array | union =>
    constructor
    · rintro ⟨_, h⟩
      cases h
    · simp

end Faithful

/-! ## Operands -/

/-- The chain of aliases of an operand has an end, or the operand is of no use. -/
def Prepared (state : LoweringState) (ground : Groundwork) (id : TypeId) : Prop :=
  (∃ target, state.catalog.LeadsTo id target ∧ state.catalog.types.referenced? target = none)
    ∨ ∀ listed, ¬ ground.glossary.HasProperties (state.catalog.namedTerm id) listed

theorem Advances.referenced? (h : before.Advances ground after)
    (known : before.catalog.types.Knows id) :
    after.catalog.types.referenced? id = before.catalog.types.referenced? id :=
  h.types.referenced?_eq known

theorem Advances.leadsTo (h : before.Advances ground after)
    (leads : before.catalog.LeadsTo id target) : after.catalog.LeadsTo id target := by
  induction leads with
  | here => exact .here _
  | onwards reference defined _ ih =>
    refine .onwards ?_ (h.bodies _ _ defined) ih
    exact TypeTable.referenced?_eq_some_iff.2
      (h.types.lookup (TypeTable.referenced?_eq_some_iff.1 reference))

/-- An operand stays prepared. -/
theorem Prepared.advances (prepared : before.Prepared ground id)
    (faithful : before.Faithful ground) (known : before.catalog.types.Knows id)
    (h : before.Advances ground after) : after.Prepared ground id := by
  rcases prepared with ⟨target, leads, ends⟩ | useless
  · have knownTarget := leads.knows faithful.closed.wellFormed known
    exact .inl ⟨target, h.leadsTo leads, (h.referenced? knownTarget).trans ends⟩
  · exact .inr (faithful.namedTerm_eq h known ▸ useless)

/-- An object is prepared. -/
theorem prepared_of_lookup {entry : TypeEntry} (found : state.catalog.types.lookup id = some entry)
    (proper : ∀ definition, entry ≠ .reference definition) : state.Prepared ground id := by
  refine .inl ⟨id, .here id, ?_⟩
  cases entry with
  | reference definition => exact absurd rfl (proper definition)
  | _ => simp [TypeTable.referenced?, found]

/-- A type with the structure of an object is one. -/
theorem Faithful.prepared_of_namedTerm (faithful : state.Faithful ground)
    (known : state.catalog.types.Knows id) (object : state.catalog.namedTerm id = .object listed) :
    state.Prepared ground id := by
  obtain ⟨entry, found⟩ := Option.isSome_iff_exists.1 known
  refine prepared_of_lookup found ?_
  rintro definition rfl
  rw [Catalog.namedTerm_of_lookup faithful.wellFormed found, Catalog.namedEntry] at object
  cases object

/-- Where a chain of aliases is followed to its end, a type has by name the properties that are read
off it. -/
theorem Faithful.hasProperties_iff_of_resolve (faithful : state.Faithful ground)
    (known : state.catalog.types.Knows id) (resolves : state.catalog.resolve id = .ok target) :
    ground.glossary.HasProperties (state.catalog.namedTerm id) listed
      ↔ ∃ properties, state.catalog.properties? id = some properties
        ∧ listed = properties.map state.catalog.namedProperty := by
  have leads := Catalog.leadsTo_of_resolve resolves
  rw [faithful.hasProperties_iff leads, faithful.hasProperties_iff_of_referenced?
    (leads.knows faithful.closed.wellFormed known) (Catalog.referenced?_of_resolve resolves)]
  simp only [Catalog.properties?_eq_some_iff, resolves, Except.ok.injEq, exists_eq_left']

/-- The properties that are read off a type are those that it has by name. -/
theorem Faithful.hasProperties_of_properties? (faithful : state.Faithful ground)
    (known : state.catalog.types.Knows id) {properties : List Property}
    (h : state.catalog.properties? id = some properties) :
    ground.glossary.HasProperties (state.catalog.namedTerm id)
      (properties.map state.catalog.namedProperty) := by
  obtain ⟨target, resolves, _⟩ := Catalog.properties?_eq_some_iff.1 h
  exact (faithful.hasProperties_iff_of_resolve known resolves).2 ⟨properties, h, rfl⟩

/-- A chain of aliases with an end is followed to it unless there are aliases in a row that are too
many. -/
theorem Faithful.hasLongAliases_of_resolve (faithful : state.Faithful ground)
    (leads : state.catalog.LeadsTo id target)
    (ends : state.catalog.types.referenced? target = none) {broken : ModelId}
    (h : state.catalog.resolve id = .error broken) : ground.glossary.HasLongAliases := by
  cases reference : state.catalog.types.referenced? id with
  | none =>
    rw [Catalog.resolve_of_referenced?_eq_none reference] at h
    cases h
  | some definition =>
    cases Catalog.breaks_of_resolve reference h with
    | missing reaches none =>
      obtain ⟨body, defined⟩ := leads.exists_body ends reference reaches
      cases none.symm.trans defined
    | cycle _ cycle => exact Glossary.hasLongAliases_of_cycle (faithful.transGen_alias cycle)
    | long _ links long =>
      exact ⟨_, by rw [List.length_map, long], faithful.isChain_alias links⟩

/-- A prepared operand from which no properties are read has none. -/
theorem Faithful.not_hasProperties_of_properties? (faithful : state.Faithful ground)
    (known : state.catalog.types.Knows id) (prepared : state.Prepared ground id)
    (h : state.catalog.properties? id = none) :
    (∀ listed, ¬ ground.glossary.HasProperties (state.catalog.namedTerm id) listed)
      ∨ ground.glossary.HasLongAliases := by
  rcases prepared with ⟨target, leads, ends⟩ | useless
  · cases resolves : state.catalog.resolve id with
    | error broken => exact .inr (faithful.hasLongAliases_of_resolve leads ends resolves)
    | ok target =>
      refine .inl fun listed has => ?_
      obtain ⟨properties, reads, _⟩ := (faithful.hasProperties_iff_of_resolve known resolves).1 has
      cases h.symm.trans reads
  · exact .inl useless

end LoweringState

end ModelForms
