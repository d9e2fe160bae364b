import ModelForms.Proofs.Document.LoweringStates

/-!
# Outcomes of a lowering

Lowering a value in a faithful state gives a type of the structure that the value means, or it
fails.  Where it fails, the value has no meaning, or there is an excuse that concerns the whole
document: a cycle of compositions, too many models under way, another value without a meaning, or
aliases in a row that are too many (`Glossary.Excuses`).

The induction is on the values and the expressions in them, and around it on the number of models
that may be under way.  A part of a value is lowered with the models under way unchanged, so a
model that it demands is one that the model at hand is composed from.
-/

namespace ModelForms

namespace Glossary

open Relation Lowering

variable {α β : Type} {glossary : Glossary} {meaning : Listing → Option α} {error : DocumentError}

/-- Models of which each is composed from the next, more than may be under way. -/
def HasLongCompositions (glossary : Glossary) : Prop :=
  ∃ chain : List String, chain.length = Limits.modelDepth + 1
    ∧ chain.IsChain glossary.ComposedFrom

/-- More models than attempts are made to enter one. -/
def IsCrowded (glossary : Glossary) : Prop :=
  ∃ names : List String, names.Nodup ∧ (∀ name ∈ names, (glossary.valueOf name).isSome = true)
    ∧ Limits.expansionSteps < names.length

/-- Why the lowering of any value of a document may fail with an error. -/
inductive Excuses (glossary : Glossary) : DocumentError → Prop
  | circular {name : String} (cycle : TransGen glossary.ComposedFrom name name) :
      Excuses glossary (.circularComposition name)
  | deep {name : String} (long : glossary.HasLongCompositions ∨ glossary.IsCrowded) :
      Excuses glossary (.invalidEntry (modelLocation name) .composedTooDeeply)
  | unmeant {error : DocumentError} {name : String} {value : Json}
      (proper : ∀ name, error ≠ .circularComposition name) (is : glossary.valueOf name = some value)
      (none : ∀ term, ¬ glossary.ValueMeans value term)
      (unlike : ∀ name, error ≠ .duplicateModel name) : Excuses glossary error
  | aliases {error : DocumentError} (proper : ∀ name, error ≠ .circularComposition name)
      (long : glossary.HasLongAliases) (unlike : ∀ name, error ≠ .duplicateModel name) :
      Excuses glossary error

/-- Why the lowering of one part of a document may fail with an error. -/
inductive Fails (glossary : Glossary) (meaning : Listing → Option α) (error : DocumentError) : Prop
  | excused (excuse : glossary.Excuses error)
  | unmeant (proper : ∀ name, error ≠ .circularComposition name ∧ error ≠ .duplicateModel name)
      (none : ∀ a, ¬ glossary.Yields meaning a)

/-- A whole fails as its parts do if it has no meaning without them. -/
theorem Fails.imp {whole : Listing → Option β} (h : glossary.Fails meaning error)
    (needs : ∀ b, glossary.Yields whole b → ∃ a, glossary.Yields meaning a) :
    glossary.Fails whole error := by
  cases h with
  | excused excuse => exact .excused excuse
  | unmeant proper none =>
    refine .unmeant proper fun b yields => ?_
    obtain ⟨a, yields⟩ := needs b yields
    exact none a yields

theorem hasLongCompositions_of_cycle {name : String}
    (cycle : TransGen glossary.ComposedFrom name name) : glossary.HasLongCompositions := by
  obtain ⟨rest, length, links⟩ := exists_isChain_of_cycle Limits.modelDepth cycle
  exact ⟨name :: rest, congrArg Nat.succ length, links⟩

end Glossary

namespace Lowering

open Relation

variable {α : Type} {ground : Groundwork} {before after : LoweringState} {id : TypeId}
  {meaning : Listing → Option NamedTerm} {bad : DocumentError → Prop}

/-! ## What is made -/

/-- A known type of the structure that something means. -/
structure Denotes (ground : Groundwork) (before : LoweringState)
    (meaning : Listing → Option NamedTerm) (id : TypeId) (after : LoweringState) : Prop
    extends before.Advances ground after where
  knows : after.catalog.types.Knows id
  means : ground.glossary.Yields meaning (after.catalog.namedTerm id)

/-- Known types of the structures that some things mean, each by itself. -/
structure DenotesAll (ground : Groundwork) (before : LoweringState)
    (meaning : Listing → Option (List NamedTerm)) (ids : List TypeId) (after : LoweringState) :
    Prop extends before.Advances ground after where
  knows : ∀ id ∈ ids, after.catalog.types.Knows id
  means : ground.glossary.Yields meaning (ids.map after.catalog.namedTerm)

/-- Properties of known types, with the structures that something means, and under distinct names
none of which came before. -/
structure DenotesProperties (ground : Groundwork) (before : LoweringState) (seen : List String)
    (meaning : Listing → Option NamedProperties) (properties : List Property)
    (after : LoweringState) : Prop extends before.Advances ground after where
  knows : ∀ p ∈ properties, after.catalog.types.Knows p.type
  means : ground.glossary.Yields meaning (properties.map after.catalog.namedProperty)
  distinct : (properties.map Property.name).Nodup
  new : ∀ p ∈ properties, p.name ∉ seen

theorem settles_get_bind_iff {next : LoweringState → Lowering α} {good : α → LoweringState → Prop} :
    Settles (get >>= next) before good bad ↔ Settles (next before) before good bad :=
  Iff.rfl

theorem settles_models_bind_iff {next : Definitions → Lowering α}
    {good : α → LoweringState → Prop} :
    Settles (models >>= next) before good bad
      ↔ Settles (next before.catalog.models) before good bad :=
  Iff.rfl

/-- A type that one step adds. -/
theorem settles_interning {origin : LoweringState} {action : Interning TypeId}
    (advances : origin.Advances ground before)
    (adds : before.catalog.Adds (action before.catalog.types).1 (action before.catalog.types).2)
    (means : ground.glossary.Yields meaning
      ((before.withTypes (action before.catalog.types).2).catalog.namedTerm
        (action before.catalog.types).1)) :
    Settles (interning action) before (Denotes ground origin meaning) bad :=
  settles_modifyGet
    ⟨advances.trans (advances.faithful.advances adds.closed adds.grows), adds.knows, means⟩

/-! ## Demanding models -/

/-- A way to define the models that are demanded while some models are under way.  Afterwards they
have bodies. -/
def Defines (ground : Groundwork) (ensureModel : String → Lowering Unit) (keys : List ModelId)
    (demanded : String → Prop) : Prop :=
  ∀ name before, before.Faithful ground → before.underway.keys = keys → demanded name →
    Settles (ensureModel name) before (fun _ after => before.Advances ground after
      ∧ ∀ definition, ground.reserved.name? definition = some name →
        ∃ body, after.catalog.models.body? definition = some body) ground.glossary.Excuses

/-- The models on a chain of aliases up to a type: each of them has a body, which is the type or a
reference to one of them. -/
structure Visits (state : LoweringState) (visited : List ModelId) (id : TypeId) : Prop where
  distinct : visited.Nodup
  reserved : ∀ definition ∈ visited, state.catalog.models.contains definition = true
  onwards : ∀ definition ∈ visited, ∃ body, state.catalog.models.body? definition = some body
    ∧ (body = id ∨ ∃ other ∈ visited, state.catalog.types.referenced? body = some other)

/-- Nobody lists properties on a chain that comes back to one of its models. -/
theorem Visits.not_hasProperties {visited : List ModelId} {definition : ModelId}
    (faithful : before.Faithful ground) (visits : Visits before visited id)
    (reference : before.catalog.types.referenced? id = some definition)
    (mem : definition ∈ visited) (listed : NamedProperties) :
    ¬ ground.glossary.HasProperties (before.catalog.namedTerm id) listed := by
  have nothing (levels : Nat) : ∀ definition ∈ visited,
      ground.glossary.listedWithin levels (ground.nameOf definition) = none := by
    induction levels with
    | zero => exact fun _ _ => rfl
    | succ levels ih =>
      intro other mem'
      obtain ⟨body, defined, next⟩ := visits.onwards other mem'
      have next : ∃ next ∈ visited, before.catalog.types.referenced? body = some next := by
        rcases next with rfl | next
        · exact ⟨definition, mem, reference⟩
        · exact next
      obtain ⟨next, memNext, reference⟩ := next
      have means := faithful.bodies other body defined
      rw [faithful.namedTerm_reference reference] at means
      rw [Option.eq_none_iff_forall_ne_some]
      intro properties h
      obtain ⟨value, is, h⟩ := Option.bind_eq_some_iff.1 h
      obtain ⟨term, means', lists⟩ := Option.bind_eq_some_iff.1 h
      cases means.unique ⟨value, is, levels, means'⟩
      have none : ground.glossary.listedWithin levels (ground.nameOf next) = none :=
        ih next memNext
      exact nomatch none.symm.trans lists
  rw [faithful.namedTerm_reference reference]
  rintro ⟨levels, h⟩
  have none := nothing levels definition mem
  exact nomatch none.symm.trans h

section

variable {ensureModel : String → Lowering Unit} {keys : List ModelId} {demanded : String → Prop}

theorem Visits.onto {visited : List ModelId} {definition : ModelId} {body : TypeId}
    (faithful : before.Faithful ground) (visits : Visits before visited id)
    (reference : before.catalog.types.referenced? id = some definition)
    (new : definition ∉ visited) (advances : before.Advances ground after)
    (defined : after.catalog.models.body? definition = some body) :
    Visits after (definition :: visited) body := by
  have reserved {definition : ModelId}
      (h : before.catalog.models.contains definition = true) :
      after.catalog.models.contains definition = true := by
    rwa [Definitions.contains_eq_of_names_eq
      (advances.faithful.names.trans faithful.names.symm)]
  refine ⟨List.nodup_cons.2 ⟨new, visits.distinct⟩, List.forall_mem_cons.2
    ⟨reserved (faithful.contains_of_referenced? reference), fun other mem =>
      reserved (visits.reserved other mem)⟩, List.forall_mem_cons.2
        ⟨⟨body, defined, .inl rfl⟩, fun other mem => ?_⟩⟩
  obtain ⟨body', defined', next⟩ := visits.onwards other mem
  refine ⟨body', advances.bodies other body' defined', .inr ?_⟩
  have still {id : TypeId} {next : ModelId}
      (h : before.catalog.types.referenced? id = some next) :
      after.catalog.types.referenced? id = some next :=
    TypeTable.referenced?_eq_some_iff.2
      (advances.types.lookup (TypeTable.referenced?_eq_some_iff.1 h))
  rcases next with rfl | ⟨next, mem', reference'⟩
  · exact ⟨definition, List.mem_cons_self, still reference⟩
  · exact ⟨next, List.mem_cons_of_mem definition mem', still reference'⟩

/-- Where following the chain of aliases of an operand has come to: a type, after the models on the
chain up to it. -/
structure OnChain (ground : Groundwork) (keys : List ModelId) (demanded : String → Prop)
    (state : LoweringState) (visited : List ModelId) (id : TypeId) : Prop where
  faithful : state.Faithful ground
  same : state.underway.keys = keys
  known : state.catalog.types.Knows id
  demands : ∀ definition, state.catalog.types.referenced? id = some definition →
    ∀ name, ReflTransGen ground.glossary.Alias (ground.nameOf definition) name → demanded name
  visits : Visits state visited id

namespace OnChain

variable {visited : List ModelId} {definition : ModelId} {body : TypeId}

/-- A chain starts at an operand if the models are demanded that it names. -/
theorem start {operand : TypeExpr} {origin : LoweringState}
    (made : Denotes ground origin (fun listing => ground.glossary.exprMeaning listing operand) id
      before)
    (same : before.underway.keys = keys)
    (demands : ∀ name, ground.glossary.Names operand name → demanded name) :
    OnChain ground keys demanded before [] id := by
  refine ⟨made.faithful, same, made.knows, fun definition reference name reaches => ?_,
    ⟨.nil, by simp, by simp⟩⟩
  refine demands name ⟨_, ?_, reaches⟩
  rw [← made.faithful.namedTerm_reference reference]
  exact made.means

theorem length_le (chain : OnChain ground keys demanded before visited id) :
    visited.length ≤ ground.reserved.size := by
  have bound := Definitions.length_le_size chain.visits.distinct chain.visits.reserved
  rwa [chain.faithful.size_eq] at bound

/-- The next model on the chain has a name, and it is demanded. -/
theorem exists_name (chain : OnChain ground keys demanded before visited id)
    (reference : before.catalog.types.referenced? id = some definition) :
    ∃ name, before.nameOf? definition = some name ∧ ground.nameOf definition = name
      ∧ demanded name := by
  obtain ⟨name, named⟩ := Definitions.exists_name?_of_contains
    (chain.faithful.contains_of_referenced? reference)
  have is := chain.faithful.nameOf_of_name? named
  rw [chain.faithful.name?_eq, ← chain.faithful.nameOf?_eq] at named
  exact ⟨name, named, is, chain.demands definition reference name (is ▸ .refl)⟩

/-- The chain goes on to the body of the next model. -/
theorem onto (chain : OnChain ground keys demanded before visited id)
    (reference : before.catalog.types.referenced? id = some definition)
    (new : definition ∉ visited) (advances : before.Advances ground after)
    (defined : after.catalog.models.body? definition = some body) :
    OnChain ground keys demanded after (definition :: visited) body := by
  refine ⟨advances.faithful, advances.keys.trans chain.same,
    advances.faithful.closed.wellFormed.bodies definition body defined,
    fun next reference' name reaches => ?_,
    chain.visits.onto chain.faithful reference new advances defined⟩
  have means := advances.faithful.bodies definition body defined
  rw [advances.faithful.namedTerm_reference reference'] at means
  exact chain.demands definition reference name (.head means reaches)

end OnChain

/-- The next model on a chain is defined, and then the chain is followed from its body. -/
theorem settles_ensureChain_onwards {fuel : Nat} {visited : List ModelId} {definition : ModelId}
    {name : String} {step good : Unit → LoweringState → Prop}
    (reference : before.catalog.types.referenced? id = some definition)
    (new : definition ∉ visited) (named : before.nameOf? definition = some name)
    (defines : Settles (ensureModel name) before step bad)
    (follows : ∀ middle, step () middle →
      ∃ body, middle.catalog.models.body? definition = some body
        ∧ Settles (ensureChain ensureModel fuel (definition :: visited) body) middle good bad) :
    Settles (ensureChain ensureModel (fuel + 1) visited id) before good bad := by
  rw [ensureChain, settles_get_bind_iff, reference]
  simp only
  rw [if_neg (by simpa using new), settles_get_bind_iff, named]
  refine defines.bind (fun _ is => is) fun _ middle stepped => ?_
  obtain ⟨body, defined, follows⟩ := follows middle stepped
  rw [settles_models_bind_iff, defined]
  exact follows

/-- Following the chain of aliases of an operand prepares it. -/
theorem settles_ensureChain (defines : Defines ground ensureModel keys demanded) :
    ∀ (fuel : Nat) {visited : List ModelId} {id : TypeId} {before : LoweringState},
      OnChain ground keys demanded before visited id →
      ground.reserved.size + 1 ≤ fuel + visited.length →
      Settles (ensureChain ensureModel fuel visited id) before
        (fun _ after => before.Advances ground after ∧ after.Prepared ground id)
        ground.glossary.Excuses
  | 0, _, _, _, chain, enough => by
    have bound := chain.length_le
    omega
  | fuel + 1, visited, id, before, chain, enough => by
    have nothing := LoweringState.Advances.refl chain.faithful
    cases reference : before.catalog.types.referenced? id with
    | none =>
      rw [ensureChain, settles_get_bind_iff, reference]
      exact settles_pure ⟨nothing, .inl ⟨id, .here id, reference⟩⟩
    | some definition =>
      by_cases back : definition ∈ visited
      · rw [ensureChain, settles_get_bind_iff, reference]
        simp only
        rw [if_pos (by simpa using back)]
        exact settles_pure
          ⟨nothing, .inr (chain.visits.not_hasProperties chain.faithful reference back)⟩
      · obtain ⟨name, named, _, demanded⟩ := chain.exists_name reference
        refine settles_ensureChain_onwards reference back named
          (defines name before chain.faithful chain.same demanded) ?_
        rintro middle ⟨advances, defined⟩
        rw [chain.faithful.nameOf?_eq] at named
        obtain ⟨body, defined⟩ := defined definition named
        refine ⟨body, defined, ?_⟩
        refine (settles_ensureChain defines fuel
          (chain.onto reference back advances defined) ?_).imp ?_ fun _ excuse => excuse
        · rw [List.length_cons]
          omega
        · rintro _ after ⟨advances', prepared⟩
          refine ⟨advances.trans advances', ?_⟩
          have reference : after.catalog.types.referenced? id = some definition :=
            ((advances.trans advances').referenced? chain.known).trans reference
          have defined := advances'.bodies definition body defined
          rcases prepared with ⟨target, leads, ends⟩ | useless
          · exact .inl ⟨target, .onwards reference defined leads, ends⟩
          · refine .inr fun listed has => useless listed ?_
            exact (advances'.faithful.hasProperties_iff
              (.onwards reference defined (.here body))).1 has

/-- An operand is prepared for a composition if the models are demanded that it names. -/
theorem settles_prepareOperand (defines : Defines ground ensureModel keys demanded)
    {operand : TypeExpr} {origin : LoweringState}
    (made : Denotes ground origin (fun listing => ground.glossary.exprMeaning listing operand) id
      before)
    (same : before.underway.keys = keys)
    (demands : ∀ name, ground.glossary.Names operand name → demanded name) :
    Settles (prepareOperand ensureModel id) before
      (fun _ after => before.Advances ground after ∧ after.Prepared ground id)
      ground.glossary.Excuses := by
  unfold prepareOperand
  rw [settles_models_bind_iff]
  exact settles_ensureChain defines _ (.start made same demands) (by simp [made.faithful.size_eq])

/-- An operand is lowered and prepared, and then something follows. -/
theorem settles_operand {β : Type} {action : Lowering TypeId} {next : TypeId → Lowering β}
    {operand : TypeExpr} {good : β → LoweringState → Prop}
    (defines : Defines ground ensureModel keys demanded) (same : before.underway.keys = keys)
    (demands : ∀ name, ground.glossary.Names operand name → demanded name)
    (lowers : Settles action before
      (Denotes ground before fun listing => ground.glossary.exprMeaning listing operand)
      (ground.glossary.Fails fun listing => ground.glossary.exprMeaning listing operand))
    (fails : ∀ error, ground.glossary.Fails
      (fun listing => ground.glossary.exprMeaning listing operand) error → bad error)
    (rest : ∀ id middle, Denotes ground before
        (fun listing => ground.glossary.exprMeaning listing operand) id middle →
      middle.Prepared ground id → Settles (next id) middle good bad) :
    Settles (action >>= fun id => prepareOperand ensureModel id >>= fun _ => next id) before good
      bad := by
  refine lowers.bind fails fun id middle made => ?_
  refine (settles_prepareOperand defines made (made.keys.trans same) demands).bind
    (fun error excuse => fails error (.excused excuse)) ?_
  rintro _ after ⟨advances, prepared⟩
  refine rest id after ⟨made.toAdvances.trans advances, advances.types.knows made.knows, ?_⟩
    prepared
  rw [made.faithful.namedTerm_eq advances made.knows]
  exact made.means

end

/-! ## Compositions -/

section

variable {operand : TypeId} {failure : DocumentError} {properties : List Property}

/-- A composition gives a type, or it fails. -/
theorem settles_composing {compose : Definitions → Interning (Option TypeId)}
    (faithful : before.Faithful ground)
    (composes : before.catalog.Composes (compose before.catalog.models before.catalog.types))
    (succeeds : ∀ id, (compose before.catalog.models before.catalog.types).1 = some id →
      ground.glossary.Yields meaning ((before.withTypes
        (compose before.catalog.models before.catalog.types).2).catalog.namedTerm id))
    (fails : (compose before.catalog.models before.catalog.types).1 = none →
      ground.glossary.Fails meaning failure) :
    Settles (composing compose failure) before (Denotes ground before meaning)
      (ground.glossary.Fails meaning) := by
  unfold composing
  rw [settles_models_bind_iff]
  have gives : Settles (interning (compose before.catalog.models)) before
      (fun outcome after => outcome = (compose before.catalog.models before.catalog.types).1
        ∧ after = before.withTypes (compose before.catalog.models before.catalog.types).2)
      fun _ => False := settles_modifyGet ⟨rfl, rfl⟩
  refine gives.bind (fun _ h => h.elim) ?_
  rintro outcome _ ⟨is, rfl⟩
  cases outcome with
  | none => exact settles_throw (fails is.symm)
  | some id =>
    have adds := composes id is.symm
    exact settles_pure ⟨faithful.advances adds.closed adds.grows, adds.knows, succeeds id is.symm⟩

theorem lookup_object (properties : List Property) (types : TypeTable) :
    (Interning.object properties types).2.lookup (Interning.object properties types).1
      = some (.object properties) := by
  obtain ⟨noted, _, same⟩ := TypeTable.object_eq properties types
  rw [same]
  exact TypeTable.lookup_intern _ noted

/-- The structure of an object that one step adds. -/
theorem namedTerm_object (faithful : before.Faithful ground)
    (known : ∀ p ∈ properties, before.catalog.types.Knows p.type)
    (distinct : (properties.map Property.name).Nodup) :
    (before.withTypes (Interning.object properties before.catalog.types).2).catalog.namedTerm
        (Interning.object properties before.catalog.types).1
      = .object (properties.map before.catalog.namedProperty) := by
  have adds := faithful.closed.adds_object known distinct
  have advances := faithful.advances adds.closed adds.grows
  rw [Catalog.namedTerm_of_lookup advances.faithful.wellFormed (lookup_object _ _),
    Catalog.namedEntry]
  refine congrArg NamedTerm.object (List.map_congr_left fun p mem => ?_)
  rw [Catalog.namedProperty, faithful.namedTerm_eq advances (known p mem)]
  rfl

/-- A composition fails where no properties are read off an operand that it needs. -/
theorem fails_of_properties? (faithful : before.Faithful ground)
    (known : before.catalog.types.Knows operand) (prepared : before.Prepared ground operand)
    (reads : before.catalog.properties? operand = none)
    (proper : ∀ name, failure ≠ .circularComposition name ∧ failure ≠ .duplicateModel name)
    (needs : ∀ term, ground.glossary.Yields meaning term →
      ∃ listed, ground.glossary.HasProperties (before.catalog.namedTerm operand) listed) :
    ground.glossary.Fails meaning failure := by
  rcases faithful.not_hasProperties_of_properties? known prepared reads with none | long
  · refine .unmeant proper fun term yields => ?_
    obtain ⟨listed, has⟩ := needs term yields
    exact none listed has
  · exact .excused (.aliases (fun name => (proper name).1) long fun name => (proper name).2)

/-- What is composed of the properties of one operand. -/
theorem settles_mapProperties {f : List Property → List Property}
    {named : NamedProperties → NamedProperties} (faithful : before.Faithful ground)
    (known : before.catalog.types.Knows operand) (prepared : before.Prepared ground operand)
    (types : ∀ properties, ∀ p ∈ f properties, ∃ q ∈ properties, q.type = p.type)
    (names : ∀ properties, (properties.map Property.name).Nodup →
      ((f properties).map Property.name).Nodup)
    (maps : ∀ properties, (f properties).map before.catalog.namedProperty
      = named (properties.map before.catalog.namedProperty))
    (proper : ∀ name, failure ≠ .circularComposition name ∧ failure ≠ .duplicateModel name) :
    Settles (composing (fun models => Interning.reading models fun catalog =>
        catalog.mapProperties operand f) failure) before
      (Denotes ground before
        (Glossary.composedMeaning named (before.catalog.namedTerm operand)))
      (ground.glossary.Fails
        (Glossary.composedMeaning named (before.catalog.namedTerm operand))) := by
  refine settles_composing faithful ?_ (fun id h => ?_) (fun h => ?_)
  · exact faithful.closed.composes_mapProperties types names
  · rw [Catalog.reading_eq, Catalog.mapProperties] at h ⊢
    cases reads : before.catalog.properties? operand with
    | none =>
      rw [reads] at h
      cases h
    | some properties =>
      rw [reads] at h
      cases h
      obtain ⟨typesKnown, distinct⟩ := faithful.closed.of_properties? reads
      refine Glossary.yields_composedMeaning_iff.2
        ⟨_, faithful.hasProperties_of_properties? known reads, ?_⟩
      rw [← maps]
      refine namedTerm_object faithful (fun p mem => ?_) (names properties distinct)
      obtain ⟨q, mem, same⟩ := types properties p mem
      exact same ▸ typesKnown q mem
  · rw [Catalog.reading_eq, Catalog.mapProperties] at h
    cases reads : before.catalog.properties? operand with
    | some properties =>
      rw [reads] at h
      cases h
    | none =>
      refine fails_of_properties? faithful known prepared reads proper fun term yields => ?_
      obtain ⟨listed, has, _⟩ := Glossary.yields_composedMeaning_iff.1 yields
      exact ⟨listed, has⟩

theorem settles_partialOf {site : ExprSite} (faithful : before.Faithful ground)
    (known : before.catalog.types.Knows operand) (prepared : before.Prepared ground operand) :
    Settles (partialOf site operand) before
      (Denotes ground before
        (Glossary.composedMeaning .allOptional (before.catalog.namedTerm operand)))
      (ground.glossary.Fails
        (Glossary.composedMeaning .allOptional (before.catalog.namedTerm operand))) := by
  refine @settles_mapProperties _ _ _ _ Property.allOptional _ faithful known prepared
    (fun properties p mem => ?_) (fun properties distinct => ?_)
      (fun _ => Catalog.map_namedProperty_allOptional) (by simp)
  · obtain ⟨q, among, rfl⟩ := List.mem_map.1 mem
    exact ⟨q, among, rfl⟩
  · rwa [Property.allOptional, List.map_map]

theorem settles_selectionOf {site : ExprSite} {name : String} {keys : List String}
    (faithful : before.Faithful ground) (known : before.catalog.types.Knows operand)
    (prepared : before.Prepared ground operand) :
    Settles (selectionOf site name operand keys) before
      (Denotes ground before
        (Glossary.composedMeaning (Glossary.selected name keys) (before.catalog.namedTerm operand)))
      (ground.glossary.Fails (Glossary.composedMeaning (Glossary.selected name keys)
        (before.catalog.namedTerm operand))) := by
  have types (keeps : Property → Bool) (properties : List Property) :
      ∀ p ∈ properties.filter keeps, ∃ q ∈ properties, q.type = p.type :=
    fun p mem => ⟨p, (List.mem_filter.1 mem).1, rfl⟩
  have names (keeps : Property → Bool) (properties : List Property)
      (distinct : (properties.map Property.name).Nodup) :
      ((properties.filter keeps).map Property.name).Nodup :=
    distinct.sublist (List.filter_sublist.map _)
  unfold selectionOf Glossary.selected
  split
  · exact @settles_mapProperties _ _ _ _ (Property.without keys) _ faithful known prepared
      (types _) (names _) (fun _ => Catalog.map_namedProperty_without keys) (by simp)
  · exact @settles_mapProperties _ _ _ _ (Property.only keys) _ faithful known prepared
      (types _) (names _) (fun _ => Catalog.map_namedProperty_only keys) (by simp)

/-- What is composed of the properties of two operands. -/
theorem settles_extensionOf {site : ExprSite} {base extra : TypeId}
    (faithful : before.Faithful ground) (known : before.catalog.types.Knows base)
    (prepared : before.Prepared ground base) (known' : before.catalog.types.Knows extra)
    (prepared' : before.Prepared ground extra) :
    Settles (extensionOf site base extra) before
      (Denotes ground before (Glossary.mergedMeaning (before.catalog.namedTerm base)
        (before.catalog.namedTerm extra)))
      (ground.glossary.Fails (Glossary.mergedMeaning (before.catalog.namedTerm base)
        (before.catalog.namedTerm extra))) := by
  refine settles_composing faithful ?_ (fun id h => ?_) (fun h => ?_)
  · exact faithful.closed.composes_extend base extra
  · unfold Interning.extend at h ⊢
    rw [Catalog.reading_eq] at h ⊢
    cases reads : before.catalog.properties? base with
    | none =>
      rw [reads] at h
      cases h
    | some properties =>
      cases reads' : before.catalog.properties? extra with
      | none =>
        rw [reads, reads'] at h
        cases h
      | some added =>
        rw [reads, reads'] at h
        cases h
        obtain ⟨typesKnown, distinct⟩ := faithful.closed.of_properties? reads
        obtain ⟨typesKnown', distinct'⟩ := faithful.closed.of_properties? reads'
        refine Glossary.yields_mergedMeaning_iff.2
          ⟨_, _, faithful.hasProperties_of_properties? known reads,
            faithful.hasProperties_of_properties? known' reads', ?_⟩
        rw [← Catalog.map_namedProperty_merge distinct distinct']
        refine namedTerm_object faithful (fun p mem => ?_)
          (Catalog.Closed.nodup_names_merge properties added)
        exact (Catalog.Closed.mem_of_mem_merge mem).elim (typesKnown p) (typesKnown' p)
  · unfold Interning.extend at h
    rw [Catalog.reading_eq] at h
    cases reads : before.catalog.properties? base with
    | none =>
      refine fails_of_properties? faithful known prepared reads (by simp) fun term yields => ?_
      obtain ⟨listed, _, has, _⟩ := Glossary.yields_mergedMeaning_iff.1 yields
      exact ⟨listed, has⟩
    | some properties =>
      cases reads' : before.catalog.properties? extra with
      | none =>
        refine fails_of_properties? faithful known' prepared' reads' (by simp) fun term yields => ?_
        obtain ⟨_, listed, _, has, _⟩ := Glossary.yields_mergedMeaning_iff.1 yields
        exact ⟨listed, has⟩
      | some added =>
        rw [reads, reads'] at h
        cases h

end

/-! ## Steps -/

section

variable {origin : LoweringState}

theorem settles_note {name : String} (faithful : before.Faithful ground) :
    Settles (interning (Interning.note name)) before
      (fun _ after => before.Advances ground after) bad :=
  settles_modifyGet (faithful.advances (faithful.closed.of_entries_eq rfl) (.of_entries_eq rfl))

theorem settles_literal {value : Literal} (advances : origin.Advances ground before)
    (means : ground.glossary.Yields meaning (.literal value)) :
    Settles (interning (Interning.literal value)) before (Denotes ground origin meaning) bad := by
  have faithful := advances.faithful
  have adds := faithful.closed.adds_literal value
  have advances' := faithful.advances adds.closed adds.grows
  refine settles_interning advances adds ?_
  have found : (Interning.literal value before.catalog.types).2.lookup
      (Interning.literal value before.catalog.types).1 = some (.literal value) := by
    obtain ⟨noted, _, same⟩ := TypeTable.literal_eq value before.catalog.types
    rw [same]
    exact TypeTable.lookup_intern _ noted
  rw [Catalog.namedTerm_of_lookup advances'.faithful.wellFormed found]
  exact means

theorem settles_array {element : TypeId} (advances : origin.Advances ground before)
    (known : before.catalog.types.Knows element)
    (means : ground.glossary.Yields meaning (.array (before.catalog.namedTerm element))) :
    Settles (interning (Interning.array element)) before (Denotes ground origin meaning) bad := by
  have faithful := advances.faithful
  have adds := faithful.closed.adds_array known
  have advances' := faithful.advances adds.closed adds.grows
  refine settles_interning advances adds ?_
  have found : (Interning.array element before.catalog.types).2.lookup
      (Interning.array element before.catalog.types).1 = some (.array element) :=
    TypeTable.lookup_intern _ _
  rw [Catalog.namedTerm_of_lookup advances'.faithful.wellFormed found, Catalog.namedEntry,
    faithful.namedTerm_eq advances' known]
  exact means

theorem settles_reference {definition : ModelId} (advances : origin.Advances ground before)
    (reserved : before.catalog.models.contains definition = true)
    (means : ground.glossary.Yields meaning (.reference (ground.nameOf definition))) :
    Settles (interning (Interning.reference definition)) before (Denotes ground origin meaning)
      bad := by
  have faithful := advances.faithful
  have adds := faithful.closed.adds_reference reserved
  have advances' := faithful.advances adds.closed adds.grows
  refine settles_interning advances adds ?_
  have found : (Interning.reference definition before.catalog.types).2.lookup
      (Interning.reference definition before.catalog.types).1 = some (.reference definition) :=
    TypeTable.lookup_intern _ _
  rw [advances'.faithful.namedTerm_reference (TypeTable.referenced?_eq_some_iff.2 found)]
  exact means

theorem settles_union {members : List TypeId} (advances : origin.Advances ground before)
    (known : ∀ m ∈ members, before.catalog.types.Knows m)
    (means : ground.glossary.Yields meaning (.unionOf (members.map before.catalog.namedTerm))) :
    Settles (interning (Interning.union members)) before (Denotes ground origin meaning) bad := by
  have faithful := advances.faithful
  have adds := faithful.closed.adds_union known
  have advances' := faithful.advances adds.closed adds.grows
  refine settles_interning advances adds ?_
  have unionOf := (TypeTable.union_spec faithful.wellFormed known).2
  rw [Catalog.namedTerm_of_unionOf advances'.faithful.closed advances'.faithful.distinct
    (fun m mem => adds.grows.knows (known m mem)) unionOf,
    List.map_congr_left fun m mem => faithful.namedTerm_eq advances' (known m mem)]
  exact means

theorem settles_object {properties : List Property} (advances : origin.Advances ground before)
    (known : ∀ p ∈ properties, before.catalog.types.Knows p.type)
    (distinct : (properties.map Property.name).Nodup)
    (means : ground.glossary.Yields meaning
      (.object (properties.map before.catalog.namedProperty))) :
    Settles (interning (Interning.object properties)) before (Denotes ground origin meaning)
      bad := by
  have faithful := advances.faithful
  refine settles_interning advances (faithful.closed.adds_object known distinct) ?_
  rw [namedTerm_object faithful known distinct]
  exact means

end

/-! ## Type expressions -/

theorem settles_lookupName {site : ExprSite} {name : String} (leaves : site.leaves = ground.leaves)
    (faithful : before.Faithful ground) (plain : genericArity? name = none) :
    Settles (lookupName site name) before
      (Denotes ground before fun listing =>
        ground.glossary.exprMeaning listing (.reference name []))
      (ground.glossary.Fails fun listing =>
        ground.glossary.exprMeaning listing (.reference name [])) := by
  have nothing := LoweringState.Advances.refl faithful
  have names_iff : name ∈ before.catalog.models.names
      ↔ (ground.glossary.valueOf name).isSome = true := by
    rw [faithful.names, ground.models]
  unfold lookupName
  rw [settles_get_bind_iff, faithful.lookup_declared]
  cases found : before.catalog.models.find? name with
  | some definition =>
    have is := faithful.nameOf_of_find? found
    have known : (ground.glossary.valueOf name).isSome = true := by
      rw [← names_iff]
      by_contra absent
      cases (Definitions.find?_eq_none_iff.2 absent).symm.trans found
    refine settles_reference nothing (Definitions.contains_of_find? found)
      (Glossary.exprMeans_name_iff.2 ?_)
    simp [Glossary.nameMeaning, plain, known, is]
  | none =>
    have unknown : (ground.glossary.valueOf name).isSome = false := by
      rw [← Bool.not_eq_true, ← names_iff]
      exact Definitions.find?_eq_none_iff.1 found
    simp only
    rw [leaves]
    cases leaf : ground.leaves.lookup name with
    | some id =>
      have mem : name ∈ ground.glossary.leaves := (ground.leafNames name).2 (by simp [leaf])
      refine settles_pure ⟨nothing, faithful.sound.leaves name id leaf, ?_⟩
      rw [faithful.leafTerms name id leaf]
      refine Glossary.exprMeans_name_iff.2 ?_
      simp [Glossary.nameMeaning, plain, unknown, mem]
    | none =>
      have absent : name ∉ ground.glossary.leaves := by
        rw [ground.leafNames, leaf]
        simp
      refine settles_throw (.unmeant (by simp) fun term means => ?_)
      have means := Glossary.exprMeans_name_iff.1 means
      simp [Glossary.nameMeaning, plain, unknown, absent] at means

/-- Keys are read as they are, and nothing but names is noted. -/
theorem settles_keyNames {site : ExprSite} (faithful : before.Faithful ground) (keys : TypeExpr) :
    Settles (keyNames site keys) before
      (fun names after => before.Advances ground after ∧ Glossary.keyNames? keys = some names)
      fun error => (∀ name, error ≠ .circularComposition name ∧ error ≠ .duplicateModel name)
        ∧ Glossary.keyNames? keys = none := by
  have nothing := LoweringState.Advances.refl faithful
  cases keys with
  | string key =>
    exact (settles_note faithful).bind (fun _ h => h) fun _ _ advances =>
      settles_pure ⟨advances, rfl⟩
  | keyword k =>
    cases k with
    | never => exact settles_pure ⟨nothing, rfl⟩
    | _ => exact settles_throw ⟨by simp, rfl⟩
  | union members =>
    unfold keyNames Glossary.keyNames?
    simp only
    induction members generalizing before with
    | nil => exact settles_pure ⟨nothing, rfl⟩
    | cons member rest ih =>
      rw [List.mapM_cons, List.mapM_cons]
      cases member with
      | string key =>
        have head : Settles (interning (Interning.note key) >>= fun _ => pure key) before
            (fun read after => before.Advances ground after ∧ read = key) fun _ => False :=
          (settles_note faithful).bind (fun _ h => h) fun _ _ advances =>
            settles_pure ⟨advances, rfl⟩
        refine head.bind (fun _ h => h.elim) ?_
        rintro _ middle ⟨advances, rfl⟩
        refine (ih advances.faithful (.refl advances.faithful)).bind ?_ ?_
        · rintro error ⟨proper, none⟩
          exact ⟨proper, by simp [none]⟩
        · rintro names after ⟨advances', is⟩
          exact settles_pure ⟨advances.trans advances', by simp [is]⟩
      | _ =>
        have head : Settles (site.fail .keys : Lowering String) before (fun _ _ => False)
          fun error => ∀ name, error ≠ .circularComposition name ∧ error ≠ .duplicateModel name :=
            settles_throw (by simp)
        exact head.bind (fun _ proper => ⟨proper, rfl⟩) fun _ _ h => h.elim
  | _ => exact settles_throw ⟨by simp, rfl⟩

end Lowering

end ModelForms
