import ModelForms.Proofs.Document.DefiningModels
import ModelForms.Proofs.Document.Resolution

/-!
# Lowering whole documents

Before the first model is lowered there are the leaves and the names of the models, and nothing
else (`LoweringState.Begun`).  From there each model of the document is defined in a faithful
state, so a lowered document is faithful to what its models mean (`Document.faithful_of_lower`),
and a document that is refused has a name twice, or there is a reason in what its models mean
(`Document.refuses_of_lower`).
-/

namespace ModelForms

/-- The chain of aliases that starts at a name comes to a cycle, or it goes on for too long. -/
def Glossary.IsBroken (glossary : Glossary) (name : String) : Prop :=
  (∃ other, Relation.ReflTransGen glossary.Alias name other
      ∧ Relation.TransGen glossary.Alias other other)
    ∨ ∃ chain : List String, chain.head? = some name ∧ chain.length = Limits.modelDepth + 1
      ∧ chain.IsChain glossary.Alias

namespace LoweringState

variable {state : LoweringState} {leaves : Entries TypeId} {name : String}

/-- The state before the first model is lowered: the leaves and the names of models. -/
structure Begun (state : LoweringState) (leaves : Entries TypeId) : Prop where
  sound : state.Sound leaves
  leafEntries : ∀ name id, leaves.lookup name = some id →
    state.catalog.types.lookup id = some (.leaf name)
  distinct : state.catalog.models.names.Nodup
  undefined : ∀ definition, state.catalog.models.body? definition = none
  underway : state.underway = Guard.forWalk .aliases

theorem begun_start : start.Begun [] where
  sound := Lowering.sound_start
  leafEntries _ _ h := by cases h
  distinct := .nil
  undefined definition := by
    obtain ⟨i⟩ := definition
    cases i <;> rfl
  underway := rfl

/-- A leaf is added. -/
theorem Begun.addLeaf (begun : state.Begun leaves) (name : String) :
    (state.withTypes (Interning.leaf name state.catalog.types).2).Begun
      (leaves.put name (Interning.leaf name state.catalog.types).1) := by
  have adds := begun.sound.closed.adds_leaf name
  have found : (Interning.leaf name state.catalog.types).2.lookup
      (Interning.leaf name state.catalog.types).1 = some (.leaf name) :=
    TypeTable.lookup_intern (.leaf name) (Interning.note name state.catalog.types).2
  have entries (other : String) (id : TypeId)
      (h : (leaves.put name (Interning.leaf name state.catalog.types).1).lookup other = some id) :
      (Interning.leaf name state.catalog.types).2.lookup id = some (.leaf other) := by
    rw [Entries.lookup_put] at h
    split at h
    next same =>
      cases h
      exact same ▸ found
    next => exact adds.grows.lookup (begun.leafEntries other id h)
  exact ⟨⟨adds.closed, fun other id h => TypeTable.knows_of_lookup (entries other id h),
    begun.sound.declared⟩, entries, begun.distinct, begun.undefined, begun.underway⟩

/-- The state in which a name is reserved for a model. -/
def withName (state : LoweringState) (name : String) : LoweringState :=
  { state with
    catalog := ⟨(Interning.note name state.catalog.types).2,
      (state.catalog.models.reserve name).2⟩ }

/-- The name of a model is added. -/
theorem Begun.addModel (begun : state.Begun leaves) (name : String) :
    (state.withName name).Begun leaves := by
  have grows : state.catalog.types.GrowsTo (Interning.note name state.catalog.types).2 :=
    .of_entries_eq rfl
  have noted : Catalog.Closed ⟨(Interning.note name state.catalog.types).2, state.catalog.models⟩ :=
    begun.sound.closed.of_entries_eq rfl
  refine ⟨⟨noted.reserve name, fun other id h => grows.knows (begun.sound.leaves other id h),
    fun other definition h =>
      Definitions.contains_reserve_iff.2 (.inl (begun.sound.declared other definition h))⟩,
    fun other id h => grows.lookup (begun.leafEntries other id h),
    Definitions.nodup_names_reserve begun.distinct, fun definition => ?_, begun.underway⟩
  rw [Option.eq_none_iff_forall_ne_some]
  intro body h
  cases (begun.undefined definition).symm.trans (Definitions.body?_of_reserve h)

/-- The state with other models of the document. -/
def withDeclared (state : LoweringState) (declared : Entries ModelId) : LoweringState :=
  { state with declared := declared }

/-- The models that have handles become the models of the document. -/
theorem Begun.declare (begun : state.Begun leaves) {declared : Entries ModelId}
    (handles : ∀ model ∈ declared, state.catalog.models.find? model.1 = some model.2) :
    (state.withDeclared declared).Begun leaves where
  sound := ⟨begun.sound.closed, begun.sound.leaves, fun _ _ found =>
    Definitions.contains_of_find? (handles _ (Entries.mem_of_lookup found))⟩
  leafEntries := begun.leafEntries
  distinct := begun.distinct
  undefined := begun.undefined
  underway := begun.underway

/-- The names that are reserved are those of the models and leaves of a document. -/
structure Covers (state : LoweringState) (leaves : Entries TypeId) (document : Document) :
    Prop where
  handles : ∀ model ∈ state.declared, state.catalog.models.find? model.1 = some model.2
  keys : state.declared.keys = document.models.keys
  models : ∀ name, name ∈ state.catalog.models.names ↔ name ∈ document.models.keys
  leaves : leaves.keys = document.leaves

/-- What there is before the first model of a document is lowered. -/
def Begun.ground (begun : state.Begun leaves) {document : Document}
    (covers : state.Covers leaves document) : Groundwork where
  glossary := document.glossary
  leaves := leaves
  declared := state.declared
  reserved := state.catalog.models
  distinct := begun.distinct
  handles := covers.handles
  declares name mem := covers.keys ▸ (covers.models name).1 mem
  models name := (covers.models name).trans Entries.hasKey_iff.symm
  leafNames name := by
    rw [show document.glossary.leaves = leaves.keys from covers.leaves.symm]
    exact Entries.hasKey_iff.symm

theorem Begun.faithful (begun : state.Begun leaves) {document : Document}
    (covers : state.Covers leaves document) : state.Faithful (begun.ground covers) where
  sound := begun.sound
  declared := rfl
  names := rfl
  leafTerms name id h :=
    Catalog.namedTerm_of_lookup begun.sound.closed.wellFormed.types (begun.leafEntries name id h)
  bodies definition body h := by cases (begun.undefined definition).symm.trans h
  tracks := by
    rw [begun.underway]
    exact {
      chain := .nil
      undefined := fun _ mem => absurd mem List.not_mem_nil
      reserved := fun _ mem => absurd mem List.not_mem_nil
      distinct := .nil
      maxDepth := rfl
      maxAttempts := rfl
      attempts := Nat.zero_le _
      counted := ⟨[], .nil, fun definition => by
        simp [Definitions.isDefined, begun.undefined], rfl⟩ }

end LoweringState

namespace Document

open Lowering

/-- The names of a document are apart from each other and from those with a meaning of their own. -/
structure NamesApart (document : Document) : Prop where
  leaves : document.leaves.Nodup
  untaken : ∀ name ∈ document.leaves ++ document.models.keys, isTaken name = false
  models : ∀ name ∈ document.models.keys, name ∉ document.leaves

/-- The first name of a document, the leaves before the models, that has a meaning already. -/
inductive Clashes (document : Document) (name : String) : Prop
  | leaf {front rest : List String} (declared : document.leaves = front ++ name :: rest)
      (apart : front.Nodup) (untaken : ∀ other ∈ front, isTaken other = false)
      (clash : isTaken name = true ∨ name ∈ front)
  | model {front rest : List String} (declared : document.models.keys = front ++ name :: rest)
      (apart : document.leaves.Nodup) (untaken : ∀ leaf ∈ document.leaves, isTaken leaf = false)
      (earlier : ∀ other ∈ front, isTaken other = false ∧ other ∉ document.leaves)
      (clash : isTaken name = true ∨ name ∈ document.leaves)

theorem Clashes.not_namesApart {document : Document} {name : String}
    (clashes : document.Clashes name) : ¬ document.NamesApart := by
  intro apart
  cases clashes with
  | @leaf front rest declared _ _ clash =>
    have mem : name ∈ document.leaves := declared ▸ List.mem_append_cons_self
    have distinct := apart.leaves
    rw [declared] at distinct
    rcases clash with taken | before
    · cases taken.symm.trans (apart.untaken name (List.mem_append_left _ mem))
    · exact (List.nodup_append.1 distinct).2.2 name before name List.mem_cons_self rfl
  | @model front rest declared _ _ _ clash =>
    have mem : name ∈ document.models.keys := declared ▸ List.mem_append_cons_self
    rcases clash with taken | isLeaf
    · cases taken.symm.trans (apart.untaken name (List.mem_append_right _ mem))
    · exact apart.models name mem isLeaf

end Document

namespace Lowering

variable {before : LoweringState} {leaves : Entries TypeId}

/-! ## Leaves and names -/

theorem settles_addLeaf (begun : before.Begun leaves) (name : String) :
    Settles (addLeaf leaves name) before
      (fun more after => after.Begun more ∧ after.catalog.models = before.catalog.models
        ∧ isTaken name = false ∧ name ∉ leaves.keys ∧ more.keys = leaves.keys ++ [name])
      fun error => error = .duplicateModel name ∧ (isTaken name = true ∨ name ∈ leaves.keys) := by
  unfold addLeaf
  split
  next clash =>
    rw [Bool.or_eq_true, Entries.hasKey_iff] at clash
    exact settles_throw_bind ⟨rfl, clash⟩
  next apart =>
    rw [Bool.or_eq_true, Entries.hasKey_iff, not_or, Bool.not_eq_true] at apart
    refine settles_modifyGet_bind_iff.2
      (settles_pure ⟨begun.addLeaf name, rfl, apart.1, apart.2, ?_⟩)
    rw [Entries.keys_put, if_neg apart.2]

theorem settles_addLeaves (names : List String) {before : LoweringState} {leaves : Entries TypeId}
    (begun : before.Begun leaves) (distinct : leaves.keys.Nodup) :
    Settles (names.foldlM addLeaf leaves) before
      (fun more after => after.Begun more ∧ after.catalog.models = before.catalog.models
        ∧ (∀ name ∈ names, isTaken name = false) ∧ more.keys = leaves.keys ++ names
        ∧ more.keys.Nodup)
      fun error => ∃ front name rest, error = .duplicateModel name ∧ names = front ++ name :: rest
        ∧ (leaves.keys ++ front).Nodup ∧ (∀ other ∈ front, isTaken other = false)
        ∧ (isTaken name = true ∨ name ∈ leaves.keys ++ front) := by
  induction names generalizing before leaves with
  | nil => exact settles_pure ⟨begun, rfl, by simp, by simp, distinct⟩
  | cons name rest ih =>
    rw [List.foldlM_cons]
    refine (settles_addLeaf begun name).bind ?_ ?_
    · rintro _ ⟨rfl, clash⟩
      refine ⟨[], name, rest, rfl, rfl, ?_, by simp, ?_⟩
      · rwa [List.append_nil]
      · rwa [List.append_nil]
    · rintro more middle ⟨begun, models, untaken, new, keys⟩
      have distinct : more.keys.Nodup := by
        rw [keys, ← List.concat_eq_append]
        exact distinct.concat new
      refine (ih begun distinct).imp ?_ ?_
      · rintro most after ⟨begun, models', untaken', keys', distinct'⟩
        refine ⟨begun, models'.trans models, List.forall_mem_cons.2 ⟨untaken, untaken'⟩, ?_,
          distinct'⟩
        rw [keys', keys, List.append_assoc, List.singleton_append]
      · rintro error ⟨front, other, others, rfl, rfl, apart, untaken', clash⟩
        rw [keys, List.append_assoc, List.singleton_append] at apart clash
        exact ⟨name :: front, other, others, rfl, rfl, apart,
          List.forall_mem_cons.2 ⟨untaken, untaken'⟩, clash⟩

theorem settles_addModel (begun : before.Begun leaves) (name : String) :
    Settles (addModel leaves name) before
      (fun _ after => after.Begun leaves
        ∧ (∀ other, other ∈ after.catalog.models.names
          ↔ other ∈ before.catalog.models.names ∨ other = name)
        ∧ isTaken name = false ∧ name ∉ leaves.keys)
      fun error => error = .duplicateModel name ∧ (isTaken name = true ∨ name ∈ leaves.keys) := by
  unfold addModel
  split
  next clash =>
    rw [Bool.or_eq_true, Entries.hasKey_iff] at clash
    exact settles_throw_bind ⟨rfl, clash⟩
  next apart =>
    rw [Bool.or_eq_true, Entries.hasKey_iff, not_or, Bool.not_eq_true] at apart
    have reserves : Settles (reserve name) before
        (fun _ after => after = before.withName name) fun _ => False :=
      settles_modifyGet_bind_iff.2 (settles_modifyGet rfl)
    refine reserves.bind (fun _ h => h.elim) ?_
    rintro definition _ rfl
    exact settles_pure ⟨begun.addModel name, fun _ => Definitions.mem_names_reserve_iff, apart⟩

theorem settles_addModels (names : List String) {before : LoweringState}
    (begun : before.Begun leaves) :
    Settles (names.mapM (addModel leaves)) before
      (fun _ after => after.Begun leaves
        ∧ (∀ other, other ∈ after.catalog.models.names
          ↔ other ∈ before.catalog.models.names ∨ other ∈ names)
        ∧ ∀ name ∈ names, isTaken name = false ∧ name ∉ leaves.keys)
      fun error => ∃ front name rest, error = .duplicateModel name ∧ names = front ++ name :: rest
        ∧ (∀ other ∈ front, isTaken other = false ∧ other ∉ leaves.keys)
        ∧ (isTaken name = true ∨ name ∈ leaves.keys) := by
  induction names generalizing before with
  | nil => exact settles_pure ⟨begun, by simp, by simp⟩
  | cons name rest ih =>
    rw [List.mapM_cons]
    refine (settles_addModel begun name).bind ?_ ?_
    · rintro _ ⟨rfl, clash⟩
      exact ⟨[], name, rest, rfl, rfl, by simp, clash⟩
    · rintro model middle ⟨begun, mem_iff, apart⟩
      refine (ih begun).bind ?_ ?_
      · rintro error ⟨front, other, others, rfl, rfl, earlier, clash⟩
        exact ⟨name :: front, other, others, rfl, rfl,
          List.forall_mem_cons.2 ⟨apart, earlier⟩, clash⟩
      · rintro models after ⟨begun, mem_iff', apart'⟩
        refine settles_pure ⟨begun, fun other => ?_, List.forall_mem_cons.2 ⟨apart, apart'⟩⟩
        rw [mem_iff', mem_iff, List.mem_cons, or_assoc]

/-! ## Models and chains of aliases -/

theorem settles_ensureModels {ground : Groundwork} {step : String → Lowering Unit}
    (defines : Defines ground step [] (ground.Next [])) (names : List String)
    {before : LoweringState} (faithful : before.Faithful ground)
    (idle : before.underway.keys = []) :
    Settles (names.forM step) before (fun _ after => before.Advances ground after
      ∧ ∀ name ∈ names, ∀ definition, ground.reserved.name? definition = some name →
        ∃ body, after.catalog.models.body? definition = some body) ground.glossary.Excuses := by
  induction names generalizing before with
  | nil => exact settles_pure ⟨.refl faithful, by simp⟩
  | cons name rest ih =>
    refine Settles.bind (defines name before faithful idle (fun _ h => by cases h))
      (fun _ excuse => excuse) ?_
    rintro _ middle ⟨advances, defined⟩
    refine (ih advances.faithful (advances.keys.trans idle)).imp ?_ (fun _ excuse => excuse)
    rintro _ after ⟨advances', others⟩
    refine ⟨advances.trans advances', List.forall_mem_cons.2 ⟨fun definition named => ?_, others⟩⟩
    obtain ⟨body, is⟩ := defined definition named
    exact ⟨body, advances'.bodies definition body is⟩

section

variable {ground : Groundwork}

/-- A chain of aliases is followed to its end unless it is broken. -/
theorem settles_checkModel (faithful : before.Faithful ground) {model : String × ModelId}
    (defined : ∀ definition, before.catalog.models.contains definition = true →
      ∃ body, before.catalog.models.body? definition = some body)
    (found : before.catalog.models.find? model.1 = some model.2) :
    Settles (checkModel model) before (fun _ after => before.Advances ground after)
      fun error => error = .circularComposition model.1 ∧ ground.glossary.IsBroken model.1 := by
  have reserved := Definitions.contains_of_find? found
  have called := faithful.nameOf_of_find? found
  have adds := faithful.closed.adds_reference reserved
  have advances := faithful.advances adds.closed adds.grows
  have isReference : (Interning.reference model.2 before.catalog.types).2.referenced?
      (Interning.reference model.2 before.catalog.types).1 = some model.2 :=
    TypeTable.referenced?_eq_some_iff.2 (TypeTable.lookup_intern _ _)
  unfold checkModel
  refine settles_modifyGet_bind_iff.2 (settles_get_bind_iff.2 ?_)
  split
  next => exact settles_pure advances
  next broken fails =>
    refine settles_throw ⟨rfl, ?_⟩
    rw [← called]
    cases Catalog.breaks_of_resolve isReference fails with
    | @missing definition reaches none =>
      have contained : before.catalog.models.contains definition = true := by
        rcases reaches.cases_tail with same | ⟨_, _, _, _, reference⟩
        · exact same ▸ reserved
        · exact advances.faithful.contains_of_referenced? reference
      obtain ⟨body, is⟩ := defined definition contained
      cases none.symm.trans is
    | cycle reaches cycle =>
      exact .inl ⟨_, advances.faithful.reflTransGen_alias reaches,
        advances.faithful.transGen_alias cycle⟩
    | long head links long =>
      refine .inr ⟨_, ?_, by rw [List.length_map, long], advances.faithful.isChain_alias links⟩
      rw [List.head?_map, head, Option.map_some]

theorem settles_checkModels (models : List (String × ModelId)) {before : LoweringState}
    (faithful : before.Faithful ground)
    (defined : ∀ definition, before.catalog.models.contains definition = true →
      ∃ body, before.catalog.models.body? definition = some body)
    (found : ∀ model ∈ models, before.catalog.models.find? model.1 = some model.2) :
    Settles (models.forM checkModel) before (fun _ after => before.Advances ground after)
      fun error => ∃ name, error = .circularComposition name ∧ ground.glossary.IsBroken name := by
  induction models generalizing before with
  | nil => exact settles_pure (.refl faithful)
  | cons model rest ih =>
    obtain ⟨foundFirst, found⟩ := List.forall_mem_cons.1 found
    refine Settles.bind (settles_checkModel faithful defined foundFirst)
      (fun error broken => ⟨model.1, broken⟩) fun _ middle advances => ?_
    have names : middle.catalog.models.names = before.catalog.models.names :=
      advances.faithful.names.trans faithful.names.symm
    refine (ih advances.faithful (fun definition reserved => ?_) fun other mem => ?_).imp
      (fun _ _ advances' => advances.trans advances') fun _ broken => broken
    · rw [Definitions.contains_eq_of_names_eq names] at reserved
      obtain ⟨body, is⟩ := defined definition reserved
      exact ⟨body, advances.bodies definition body is⟩
    · rw [Definitions.find?_eq_of_names_eq names]
      exact found other mem

end

end Lowering

/-! ## Documents -/

/-- The structure of the body of a model. -/
noncomputable def Lowered.structure? (lowered : Lowered) (name : String) : Option NamedTerm := do
  let definition ← lowered.models.lookup name
  let body ← lowered.catalog.models.body? definition
  return lowered.catalog.namedTerm body

namespace Document

open Lowering

variable {document : Document}

/-- Why a document may be refused because of its names and values. -/
inductive Refuses (document : Document) : DocumentError → Prop
  | name {name : String} (clash : document.Clashes name) : Refuses document (.duplicateModel name)
  | excused {error : DocumentError} (excuse : document.glossary.Excuses error) :
      Refuses document error
  | broken {name : String} (isBroken : document.glossary.IsBroken name) :
      Refuses document (.circularComposition name)

/-- The state in which the leaves of a document and the names of its models are declared, and no
model is lowered yet. -/
structure Declares (document : Document) (ground : Groundwork) (state : LoweringState) :
    Prop where
  glossary : ground.glossary = document.glossary
  namesApart : document.NamesApart
  faithful : state.Faithful ground
  idle : state.underway.keys = []
  undefined : ∀ definition, state.catalog.models.body? definition = none

theorem Declares.mem_names_iff {ground : Groundwork} {state : LoweringState}
    (declares : document.Declares ground state) {name : String} :
    name ∈ ground.reserved.names ↔ name ∈ document.models.keys := by
  rw [ground.models, declares.glossary]
  exact Entries.hasKey_iff

/-- What is left to lower once all names are declared. -/
theorem settles_lowerAll_of {good : Entries ModelId × Entries TypeId → LoweringState → Prop}
    {bad : DocumentError → Prop} (document : Document)
    (clash : ∀ name, document.Clashes name → bad (.duplicateModel name))
    (rest : ∀ ground state, document.Declares ground state →
      Settles (do
        document.models.keys.forM
          (ensureModel document.models ground.leaves WalkKind.aliases.maxDepth)
        ground.declared.forM checkModel
        return (ground.declared, ground.leaves)) state good bad) :
    Settles (lowerAll document) .start good bad := by
  unfold lowerAll
  refine (settles_addLeaves document.leaves LoweringState.begun_start .nil).bind ?_ ?_
  · rintro _ ⟨front, name, rest, rfl, declared, apart, untaken, twice⟩
    exact clash name (.leaf declared apart untaken twice)
  rintro leaves first ⟨begun, noModels, untaken, leafKeys, distinct⟩
  have leafKeys : leaves.keys = document.leaves := leafKeys
  refine (settles_addModels document.models.keys begun).and_gives.bind ?_ ?_
  · rintro _ ⟨front, name, rest, rfl, declared, earlier, taken⟩
    exact clash name (.model declared (leafKeys ▸ distinct) untaken
      (leafKeys ▸ earlier) (leafKeys ▸ taken))
  rintro models second ⟨⟨begun, mem_iff, apart⟩, gives⟩
  obtain ⟨keys, _, handles⟩ := find?_of_addModels document.models.keys gives
  have names (name : String) :
      name ∈ second.catalog.models.names ↔ name ∈ document.models.keys := by
    rw [mem_iff, noModels]
    exact or_iff_right List.not_mem_nil
  have begun := begun.declare handles
  have covers : (second.withDeclared models).Covers leaves document :=
    ⟨handles, keys, names, leafKeys⟩
  refine settles_modifyGet_bind_iff.2 (rest (begun.ground covers) (second.withDeclared models) {
    glossary := rfl
    namesApart := {
      leaves := leafKeys ▸ distinct
      untaken := List.forall_mem_append.2 ⟨untaken, fun name mem => (apart name mem).1⟩
      models := fun name mem => leafKeys ▸ (apart name mem).2 }
    faithful := begun.faithful covers
    idle := by rw [begun.underway]; rfl
    undefined := begun.undefined })

/-- The models are checked after all of them are defined. -/
theorem Declares.settles_checkModels {ground : Groundwork} {state third : LoweringState}
    (declares : document.Declares ground state) (advances : state.Advances ground third)
    (defined : ∀ name ∈ document.models.keys, ∀ definition,
      ground.reserved.name? definition = some name →
        ∃ body, third.catalog.models.body? definition = some body) :
    Settles (ground.declared.forM checkModel) third (fun _ after => third.Advances ground after)
      fun error => ∃ name, error = .circularComposition name ∧ ground.glossary.IsBroken name := by
  refine Lowering.settles_checkModels ground.declared advances.faithful
    (fun definition reserved => ?_) fun model mem => ?_
  · rw [Definitions.contains_eq_of_names_eq advances.faithful.names] at reserved
    obtain ⟨name, named⟩ := Definitions.exists_name?_of_contains reserved
    exact defined name (declares.mem_names_iff.1 (Definitions.mem_names_of_name? named)) definition
      named
  · rw [Definitions.find?_eq_of_names_eq advances.faithful.names]
    exact ground.handles model mem

/-- A document is lowered to a state that is faithful to what its models mean, or it is refused for
a reason. -/
theorem settles_lowerAll (document : Document) :
    Settles (lowerAll document) .start
      (fun result after => document.NamesApart ∧ ∃ ground : Groundwork,
        ground.glossary = document.glossary ∧ ground.leaves = result.2 ∧ after.Faithful ground)
      document.Refuses := by
  refine settles_lowerAll_of document (fun name clash => .name clash)
    fun ground state declares => ?_
  have same (name : String) : ground.glossary.valueOf name = document.models.lookup name := by
    rw [declares.glossary]
    rfl
  refine (settles_ensureModels (defines_ensureModel same _ (Nat.le_add_right _ _))
    document.models.keys declares.faithful declares.idle).bind
      (fun _ excuse => .excused (declares.glossary ▸ excuse)) ?_
  rintro _ third ⟨advances, defined⟩
  refine (declares.settles_checkModels advances defined).bind ?_ ?_
  · rintro _ ⟨name, rfl, isBroken⟩
    exact .broken (declares.glossary ▸ isBroken)
  · rintro _ fourth advances'
    exact settles_pure ⟨declares.namesApart, _, declares.glossary, rfl, advances'.faithful⟩

theorem gives_of_lower {lowered : Lowered} (h : document.lower = .ok lowered) :
    ∃ after, Gives (lowerAll document) .start (lowered.models, lowered.leaves) after
      ∧ after.catalog = lowered.catalog ∧ document.hint = .ok lowered.hints
      ∧ document.modeChoice = .ok lowered.mode := by
  obtain ⟨_, after, _, _, gives, hint, choice, rfl⟩ := lower_eq_ok_iff.1 h
  exact ⟨after, gives, rfl, hint, choice⟩

/-- A lowered document is faithful to what its models mean. -/
theorem faithful_of_lower {lowered : Lowered} (h : document.lower = .ok lowered) :
    document.NamesApart ∧ ∃ (ground : Groundwork) (state : LoweringState),
      ground.glossary = document.glossary ∧ state.Faithful ground
        ∧ state.catalog = lowered.catalog := by
  obtain ⟨state, gives, same, _⟩ := gives_of_lower h
  obtain ⟨apart, ground, glossary, _, faithful⟩ := (settles_lowerAll document).of_gives gives
  exact ⟨apart, ground, state, glossary, faithful, same⟩

/-- The models of a lowered document have different names. -/
theorem distinct_of_lower {lowered : Lowered} (h : document.lower = .ok lowered) :
    lowered.catalog.models.names.Nodup := by
  obtain ⟨_, _, _, _, faithful, catalog⟩ := faithful_of_lower h
  exact catalog ▸ faithful.distinct

/-- The leaves of a lowered document are leaves of the document, and each id is that of its leaf. -/
theorem leaf_of_lower {lowered : Lowered} (h : document.lower = .ok lowered) {name : String}
    {id : TypeId} (found : lowered.leaves.lookup name = some id) :
    name ∈ document.leaves ∧ lowered.catalog.types.lookup id = some (.leaf name) := by
  obtain ⟨state, gives, same, _⟩ := gives_of_lower h
  obtain ⟨_, ground, glossary, leaves, faithful⟩ := (settles_lowerAll document).of_gives gives
  replace found : ground.leaves.lookup name = some id := by rwa [leaves]
  have declared : name ∈ ground.glossary.leaves := by simp [ground.leafNames, found]
  refine ⟨by rwa [glossary] at declared, ?_⟩
  have term := faithful.leafTerms name id found
  obtain ⟨entry, stored⟩ := Option.isSome_iff_exists.1 (faithful.sound.leaves name id found)
  rw [Catalog.namedTerm_of_lookup faithful.wellFormed stored] at term
  rw [← same, stored]
  cases entry <;> cases term
  rfl

/-- Each handle of a lowered document has a body, of the structure that the model means. -/
theorem exists_body_of_name? {lowered : Lowered} (h : document.lower = .ok lowered)
    {definition : ModelId} {name : String}
    (named : lowered.catalog.models.name? definition = some name) :
    ∃ body, lowered.catalog.models.body? definition = some body
      ∧ document.glossary.Means name (lowered.catalog.namedTerm body) := by
  obtain ⟨complete, _⟩ := complete_of_lower h
  obtain ⟨_, ground, state, glossary, faithful, catalog⟩ := faithful_of_lower h
  obtain ⟨model, mem, rfl⟩ := (complete.handles definition).1 (Definitions.contains_of_name? named)
  obtain ⟨body, defined⟩ := (complete.ends model mem).exists_body
  refine ⟨body, defined, ?_⟩
  rw [← catalog, faithful.name?_eq] at named
  rw [← catalog] at defined ⊢
  rw [← glossary]
  exact Definitions.describe_eq_of_name? named ▸ faithful.bodies model.2 body defined

/-- The body of each model of a lowered document is of the structure that its value means. -/
theorem exists_body_of_lower {lowered : Lowered} (h : document.lower = .ok lowered)
    {name : String} (declared : name ∈ document.models.keys) :
    ∃ definition body, lowered.models.lookup name = some definition
      ∧ lowered.catalog.models.body? definition = some body
      ∧ document.glossary.Means name (lowered.catalog.namedTerm body) := by
  obtain ⟨complete, keys⟩ := complete_of_lower h
  obtain ⟨model, mem, rfl⟩ := List.mem_map.1 (keys ▸ declared)
  obtain ⟨body, defined, means⟩ :=
    exists_body_of_name? h (Definitions.name?_eq_some_of_find? (complete.names model mem))
  exact ⟨model.2, body, complete.lookup_of_mem mem, defined, means⟩

/-- The structure of each model of a lowered document is what its value means. -/
theorem exists_structure?_of_lower {lowered : Lowered} (h : document.lower = .ok lowered)
    {name : String} (declared : name ∈ document.models.keys) :
    ∃ term, lowered.structure? name = some term ∧ document.glossary.Means name term := by
  obtain ⟨definition, body, found, defined, means⟩ := exists_body_of_lower h declared
  exact ⟨_, by simp [Lowered.structure?, found, defined], means⟩

theorem exists_means_of_lower {lowered : Lowered} (h : document.lower = .ok lowered) {name : String}
    (declared : name ∈ document.models.keys) : ∃ term, document.glossary.Means name term := by
  obtain ⟨_, _, _, _, means⟩ := exists_body_of_lower h declared
  exact ⟨_, means⟩

/-- The parts of a document that are read one after another, the first of which fails. -/
theorem fails_of_lower {error : DocumentError} (h : document.lower = .error error) :
    (∃ after, (lowerAll document).run.run .start = (.error error, after))
      ∨ (∃ fault, document.hint = .error fault ∧ error = .invalidHint fault)
      ∨ ∃ fault, document.modeChoice = .error fault ∧ error = .mode fault := by
  unfold lower at h
  cases run : (lowerAll document).run.run LoweringState.start with
  | mk outcome after =>
    rw [run] at h
    cases outcome with
    | error _ =>
      cases h
      exact .inl ⟨after, rfl⟩
    | ok result =>
      cases hint : document.hint with
      | error fault =>
        rw [hint] at h
        cases h
        exact .inr (.inl ⟨fault, rfl, rfl⟩)
      | ok hints =>
        cases choice : document.modeChoice with
        | error fault =>
          rw [hint, choice] at h
          cases h
          exact .inr (.inr ⟨fault, rfl, rfl⟩)
        | ok mode =>
          rw [hint, choice] at h
          cases h

/-- Why a document is refused. -/
theorem refuses_of_lower {error : DocumentError} (h : document.lower = .error error) :
    document.Refuses error ∨ (∃ fault, document.hint = .error fault ∧ error = .invalidHint fault)
      ∨ ∃ fault, document.modeChoice = .error fault ∧ error = .mode fault :=
  (fails_of_lower h).imp_left fun ⟨_, run⟩ => (settles_lowerAll document).of_fails run

end Document

end ModelForms
