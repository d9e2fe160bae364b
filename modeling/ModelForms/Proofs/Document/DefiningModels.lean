import ModelForms.Proofs.Document.FaithfulLowering

/-!
# Defining models

Defining a model and the models that it is composed from keeps a state faithful, or it fails for a
reason that concerns the whole document (`Lowering.defines_ensureModel`).  The induction is on the
number of models that may be under way: lowering a model's value demands only models that the model
is composed from, and each of these is entered after it.

The guard refuses a model that is under way, since it is then composed from itself; it refuses a
model when as many are under way as may be, and then each of them is composed from the next; and it
refuses one after too many attempts, of which there was one for each model that is or was under
way.
-/

namespace ModelForms

namespace Groundwork

open Relation

variable {ground : Groundwork} {models : Definitions} {guard : Guard ModelId} {definition : ModelId}
  {name : String}

/-- A model may be demanded while others are under way if the innermost one is composed from it. -/
def Next (ground : Groundwork) (keys : List ModelId) (name : String) : Prop :=
  ∀ innermost ∈ keys.head?, ground.glossary.ComposedFrom (ground.nameOf innermost) name

namespace Tracks

variable (tracks : ground.Tracks models guard)

include tracks

/-- The models under way and one that comes next. -/
theorem isChain_cons (next : ground.Next guard.keys (ground.nameOf definition)) :
    ((definition :: guard.keys).map ground.nameOf).IsChain
      fun a b => ground.glossary.ComposedFrom b a := by
  have chain := tracks.chain
  cases keys : guard.keys with
  | nil => exact .singleton _
  | cons innermost rest =>
    rw [keys] at chain next
    exact List.isChain_cons_cons.2 ⟨next innermost rfl, chain⟩

/-- A model that is under way already is composed from itself. -/
theorem cycle (next : ground.Next guard.keys (ground.nameOf definition))
    (entered : definition ∈ guard.keys) :
    TransGen ground.glossary.ComposedFrom (ground.nameOf definition)
      (ground.nameOf definition) := by
  have chain := (tracks.isChain_cons next).imp fun _ _ h => TransGen.single h
  exact transGen_swap.1 (chain.rel_cons (List.mem_map_of_mem entered))

/-- Where as many models are under way as may be, each is composed from the next. -/
theorem hasLongCompositions (next : ground.Next guard.keys (ground.nameOf definition))
    (full : guard.maxDepth ≤ guard.depth) : ground.glossary.HasLongCompositions := by
  have chain := (tracks.isChain_cons next).take (Limits.modelDepth + 1)
  refine ⟨_, ?_, List.isChain_reverse.2 chain⟩
  have maxDepth := tracks.maxDepth
  unfold Guard.depth at full
  simp only [List.length_reverse, List.length_take, List.length_map, List.length_cons]
  omega

/-- Where too many attempts were made before a model is entered, there are more models than
attempts. -/
theorem isCrowded_of_attempts (names : models.names = ground.reserved.names)
    (reserved : models.contains definition = true)
    (undefined : models.body? definition = none) (entered : definition ∉ guard.keys)
    (many : guard.maxAttempts < guard.attempts + 1) : ground.glossary.IsCrowded := by
  obtain ⟨finished, distinct, mem_iff, attempts⟩ := tracks.counted
  have undefinedOf {other : ModelId} (mem : other ∈ finished) : other ∉ guard.keys := by
    intro entered
    obtain ⟨body, defined⟩ := Definitions.isDefined_iff.1 ((mem_iff other).1 mem)
    cases (tracks.undefined other entered).symm.trans defined
  have absent : definition ∉ finished := by
    intro mem
    obtain ⟨body, defined⟩ := Definitions.isDefined_iff.1 ((mem_iff definition).1 mem)
    cases undefined.symm.trans defined
  have each : ∀ other ∈ definition :: (finished ++ guard.keys),
      ground.reserved.contains other = true := by
    intro other mem
    rw [← Definitions.contains_eq_of_names_eq names]
    rcases List.mem_cons.1 mem with rfl | mem
    · exact reserved
    · rcases List.mem_append.1 mem with mem | mem
      · obtain ⟨body, defined⟩ := Definitions.isDefined_iff.1 ((mem_iff other).1 mem)
        exact Definitions.contains_of_body? defined
      · exact tracks.reserved other mem
  refine ⟨(definition :: (finished ++ guard.keys)).map ground.nameOf, ?_, ?_, ?_⟩
  · refine List.Nodup.map_on (fun a mem b mem' same =>
      Definitions.eq_of_describe_eq ground.distinct (each a mem) (each b mem') same) ?_
    rw [List.nodup_cons, List.mem_append, not_or]
    refine ⟨⟨absent, entered⟩, List.nodup_append.2 ⟨distinct, tracks.distinct, ?_⟩⟩
    rintro a mem _ mem' rfl
    exact undefinedOf mem mem'
  · intro name mem
    obtain ⟨other, among, rfl⟩ := List.mem_map.1 mem
    obtain ⟨name, named⟩ := Definitions.exists_name?_of_contains (each other among)
    rw [← ground.models, show ground.nameOf other = name from
      Definitions.describe_eq_of_name? named]
    exact Definitions.mem_names_of_name? named
  · have maxAttempts := tracks.maxAttempts
    simp only [List.length_map, List.length_cons, List.length_append]
    omega

/-- Where too many attempts were made, there are more models than attempts, or one of them is
composed from itself. -/
theorem long_of_attempts (next : ground.Next guard.keys (ground.nameOf definition))
    (names : models.names = ground.reserved.names)
    (reserved : models.contains definition = true)
    (undefined : models.body? definition = none)
    (many : guard.maxAttempts < guard.attempts + 1) :
    ground.glossary.HasLongCompositions ∨ ground.glossary.IsCrowded := by
  by_cases entered : definition ∈ guard.keys
  · exact .inl (Glossary.hasLongCompositions_of_cycle (tracks.cycle next entered))
  · exact .inr (tracks.isCrowded_of_attempts names reserved undefined entered many)

/-- A model that is entered is the innermost one. -/
theorem enter (next : ground.Next guard.keys (ground.nameOf definition))
    (isReserved : models.contains definition = true)
    (isUndefined : models.body? definition = none)
    (entered : (guard.enter definition).1 = .entered) :
    ground.Tracks models (guard.enter definition).2 := by
  have keys := Guard.keys_enter_of_eq entered
  obtain ⟨counts, bounded, sameAttempts⟩ := Guard.attempts_enter_of_eq entered
  obtain ⟨_, sameDepth⟩ := Guard.room_of_enter entered
  obtain ⟨finished, distinct, mem_iff, attempts⟩ := tracks.counted
  have few := tracks.attempts
  have small : Limits.expansionSteps + 1 ≤ Guard.maxCount := by decide
  exact {
    chain := keys ▸ tracks.isChain_cons next
    undefined := keys ▸ List.forall_mem_cons.2 ⟨isUndefined, tracks.undefined⟩
    reserved := keys ▸ List.forall_mem_cons.2 ⟨isReserved, tracks.reserved⟩
    distinct := keys ▸ List.nodup_cons.2 ⟨Guard.not_mem_keys_of_eq entered, tracks.distinct⟩
    maxDepth := sameDepth.trans tracks.maxDepth
    maxAttempts := sameAttempts.trans tracks.maxAttempts
    attempts := tracks.maxAttempts ▸ bounded
    counted := ⟨finished, distinct, mem_iff, by rw [counts, keys, List.length_cons]; omega⟩ }

/-- The innermost model is left when it gets its body. -/
theorem leave {keys : List ModelId} (innermost : guard.keys = definition :: keys) (body : TypeId) :
    ground.Tracks (models.define definition body).2 (guard.leave definition) := by
  have left : (guard.leave definition).keys = keys := by
    rw [Guard.leave, innermost, List.tail_cons]
  have isReserved : models.contains definition = true :=
    tracks.reserved definition (innermost ▸ List.mem_cons_self)
  have isUndefined : models.body? definition = none :=
    tracks.undefined definition (innermost ▸ List.mem_cons_self)
  have among {other : ModelId} (mem : other ∈ keys) : other ∈ guard.keys :=
    innermost ▸ List.mem_cons_of_mem definition mem
  have distinct := tracks.distinct
  rw [innermost, List.nodup_cons] at distinct
  obtain ⟨finished, distinctFinished, mem_iff, attempts⟩ := tracks.counted
  have chain := tracks.chain
  rw [innermost, List.map_cons] at chain
  exact {
    chain := left ▸ chain.tail
    undefined := left ▸ fun other mem => by
      rw [Definitions.body?_define isReserved, if_neg (ne_of_mem_of_not_mem mem distinct.1)]
      exact tracks.undefined other (among mem)
    reserved := left ▸ fun other mem => by
      rw [Definitions.contains_define]
      exact tracks.reserved other (among mem)
    distinct := left ▸ distinct.2
    maxDepth := tracks.maxDepth
    maxAttempts := tracks.maxAttempts
    attempts := tracks.attempts
    counted := by
      refine ⟨definition :: finished, List.nodup_cons.2 ⟨fun mem => ?_, distinctFinished⟩,
        fun other => ?_, ?_⟩
      · rw [mem_iff, Definitions.isDefined, isUndefined] at mem
        cases mem
      · rw [List.mem_cons, mem_iff, Definitions.isDefined, Definitions.isDefined,
          Definitions.body?_define isReserved]
        split
        next same => simp [same]
        next other => simp [other]
      · rw [left, List.length_cons, show (guard.leave definition).attempts = _ from attempts,
          innermost, List.length_cons]
        omega }

end Tracks

end Groundwork

namespace LoweringState

variable {ground : Groundwork} {before state : LoweringState} {definition : ModelId}
  {body : TypeId} {name : String}

/-- The state with another guard. -/
def withGuard (state : LoweringState) (guard : Guard ModelId) : LoweringState :=
  { state with underway := guard }

/-- The state in which a model has a body. -/
def withBody (state : LoweringState) (definition : ModelId) (body : TypeId) : LoweringState :=
  { state with
    catalog := { state.catalog with models := (state.catalog.models.define definition body).2 } }

theorem Faithful.withGuard (faithful : state.Faithful ground) {guard : Guard ModelId}
    (tracks : ground.Tracks state.catalog.models guard) :
    (state.withGuard guard).Faithful ground :=
  ⟨faithful.sound.withUnderway guard, faithful.declared, faithful.names, faithful.leafTerms,
    faithful.bodies, tracks⟩

/-- The innermost model is left and gets its body. -/
theorem Faithful.define (faithful : state.Faithful ground) {keys : List ModelId}
    (innermost : state.underway.keys = definition :: keys)
    (known : state.catalog.types.Knows body)
    (means : ground.glossary.Means (ground.nameOf definition) (state.catalog.namedTerm body)) :
    ((state.withGuard (state.underway.leave definition)).withBody definition body).Faithful
      ground := by
  have reserved : state.catalog.models.contains definition = true :=
    faithful.tracks.reserved definition (innermost ▸ List.mem_cons_self)
  have names := @Definitions.names_define state.catalog.models definition body
  have same {id : TypeId} (known : state.catalog.types.Knows id) :
      ((state.withGuard (state.underway.leave definition)).withBody definition
        body).catalog.namedTerm id = state.catalog.namedTerm id :=
    Catalog.namedTerm_eq_of_growsTo faithful.wellFormed (.refl _) names known
  have sound : (state.withGuard (state.underway.leave definition)).Sound ground.leaves :=
    faithful.sound.withUnderway _
  refine ⟨(Lowering.precedes_of_define sound known (gives_modifyGet_iff.2 ⟨rfl, rfl⟩)).sound,
    faithful.declared, names.trans faithful.names, fun name id found => ?_,
    fun other found is => ?_, faithful.tracks.leave innermost body⟩
  · rw [same (faithful.sound.leaves name id found)]
    exact faithful.leafTerms name id found
  · have is : (if other = definition then some body else state.catalog.models.body? other)
        = some found := (Definitions.body?_define reserved).symm.trans is
    split at is
    next other_eq =>
      cases is
      rw [other_eq, same known]
      exact means
    next =>
      rw [same (faithful.closed.wellFormed.bodies other found is)]
      exact faithful.bodies other found is

/-- A model is under way while its body is made, and then it has the body. -/
theorem Advances.define {guard : Guard ModelId}
    (advances : (before.withGuard guard).Advances ground state)
    (entered : guard.keys = definition :: before.underway.keys)
    (undefined : before.catalog.models.body? definition = none)
    (known : state.catalog.types.Knows body)
    (means : ground.glossary.Means (ground.nameOf definition) (state.catalog.namedTerm body)) :
    before.Advances ground
        ((state.withGuard (state.underway.leave definition)).withBody definition body)
      ∧ ((state.withGuard (state.underway.leave definition)).withBody definition
          body).catalog.models.body? definition = some body := by
  have innermost : state.underway.keys = definition :: before.underway.keys :=
    advances.keys.trans entered
  have body?_eq (other : ModelId) :=
    @Definitions.body?_define state.catalog.models definition other body
      (advances.faithful.tracks.reserved definition (innermost ▸ List.mem_cons_self))
  refine ⟨⟨advances.faithful.define innermost known means, advances.types,
    fun other found is => ?_, congrArg List.tail innermost⟩,
    (body?_eq definition).trans (if_pos rfl)⟩
  refine (body?_eq other).trans ?_
  rw [if_neg (by rintro rfl; cases undefined.symm.trans is)]
  exact advances.bodies other found is

end LoweringState

namespace Lowering

variable {ground : Groundwork} {before : LoweringState} {keys : List ModelId}

/-- What defining a model comes to.  The model is left again whether its value is lowered or not. -/
theorem settles_ensureModelStep_iff {values : Entries Json} {leaves : Entries TypeId}
    {defineOther : String → Lowering Unit} {name : String} {good : Unit → LoweringState → Prop}
    {bad : DocumentError → Prop} :
    Settles (ensureModelStep values leaves defineOther name) before good bad
      ↔ match before.declared.lookup name, values.lookup name with
        | some definition, some value =>
            if before.catalog.models.isDefined definition then good () before
            else match (before.underway.enter definition).1 with
              | .entered =>
                  Settles (typeOfValue defineOther leaves (modelLocation name) value)
                    { before with underway := (before.underway.enter definition).2 }
                    (fun body after => Settles (define definition body)
                      { after with underway := after.underway.leave definition } good bad)
                    bad
              | .cycle => bad (.circularComposition name)
              | .tooDeep | .tooMany =>
                  bad (.invalidEntry (modelLocation name) .composedTooDeeply)
        | _, _ => good () before := by
  unfold ensureModelStep
  rw [settles_get_bind_iff]
  cases before.declared.lookup name with
  | none => exact Iff.rfl
  | some definition =>
    cases values.lookup name with
    | none => exact Iff.rfl
    | some value =>
      simp only [settles_models_bind_iff]
      by_cases defined : before.catalog.models.isDefined definition = true
      · rw [if_pos defined, if_pos defined]
        exact Iff.rfl
      · rw [if_neg defined, if_neg defined, settles_modifyGet_bind_iff]
        cases (before.underway.enter definition).1 with
        | cycle | tooDeep | tooMany => exact Iff.rfl
        | entered =>
          show Settles (attempt _ >>= _) { before with underway := _ } good bad ↔ _
          unfold Settles
          rw [run_bind, run_attempt]
          cases (typeOfValue defineOther leaves (modelLocation name) value).run.run
              { before with underway := (before.underway.enter definition).2 } with
          | mk outcome after => cases outcome <;> exact Iff.rfl

theorem defines_ensureModelStep {values : Entries Json} {defineOther : String → Lowering Unit}
    (same : ∀ name, ground.glossary.valueOf name = values.lookup name)
    (others : keys.length < Limits.modelDepth → ∀ definition,
      Defines ground defineOther (definition :: keys) (ground.Next (definition :: keys))) :
    Defines ground (ensureModelStep values ground.leaves defineOther) keys
      (ground.Next keys) := by
  rintro name before faithful rfl next
  have nothing := LoweringState.Advances.refl faithful
  rw [settles_ensureModelStep_iff, faithful.lookup_declared]
  split
  next definition value found is =>
    have reserved := Definitions.contains_of_find? found
    have named := Definitions.name?_eq_some_of_find? found
    rw [faithful.name?_eq] at named
    have called := faithful.nameOf_of_find? found
    have only {other : ModelId} (h : ground.reserved.name? other = some name) :
        other = definition := Definitions.eq_of_name?_eq ground.distinct h named
    have next : ground.Next before.underway.keys (ground.nameOf definition) := called ▸ next
    split
    next defined =>
      refine ⟨nothing, fun other h => ?_⟩
      rw [only h]
      exact Definitions.isDefined_iff.1 defined
    next undefined =>
      have undefined : before.catalog.models.body? definition = none := by
        simpa [Definitions.isDefined] using undefined
      cases admission : (before.underway.enter definition).1 with
      | cycle =>
        refine .circular ?_
        exact called ▸ faithful.tracks.cycle next (Guard.mem_keys_of_cycle admission)
      | tooDeep =>
        refine .deep (.inl ?_)
        exact faithful.tracks.hasLongCompositions next (Guard.maxDepth_le_of_tooDeep admission)
      | tooMany =>
        refine .deep ?_
        exact faithful.tracks.long_of_attempts next faithful.names reserved undefined
          (Guard.maxAttempts_lt_of_tooMany admission)
      | entered =>
        have keys := Guard.keys_enter_of_eq admission
        have tracks := faithful.tracks.enter next reserved undefined admission
        have room : before.underway.keys.length < Limits.modelDepth :=
          faithful.tracks.maxDepth ▸ (Guard.room_of_enter admission).1
        have value_eq : ground.glossary.valueOf (ground.nameOf definition) = some value := by
          rw [called, same, is]
        refine (settles_typeOfValue (others room definition) value
          (faithful.withGuard tracks) keys fun operand mem name names innermost first => ?_).imp
            (fun id after made => ?_) fun error fails => ?_
        · cases first
          exact ⟨value, value_eq, operand, mem, names⟩
        · obtain ⟨advances, is⟩ := made.toAdvances.define keys undefined made.knows
            ⟨value, value_eq, made.means⟩
          exact settles_modifyGet ⟨advances, fun other h => ⟨id, only h ▸ is⟩⟩
        · cases fails with
          | excused excuse => exact excuse
          | unmeant proper none =>
            exact .unmeant (fun name => (proper name).1) value_eq none
              fun name => (proper name).2
  next missing =>
    refine ⟨nothing, fun definition named => ?_⟩
    have known := Definitions.mem_names_of_name? named
    obtain ⟨value, is⟩ := Option.isSome_iff_exists.1 ((ground.models name).1 known)
    rw [← faithful.names] at known
    cases found : before.catalog.models.find? name with
    | none => exact absurd known (Definitions.find?_eq_none_iff.1 found)
    | some other => exact (missing other value found (same name ▸ is)).elim

/-- Defining a model by name, with room for the models that it is composed from. -/
theorem defines_ensureModel {values : Entries Json}
    (same : ∀ name, ground.glossary.valueOf name = values.lookup name) :
    ∀ (levels : Nat) {keys : List ModelId}, Limits.modelDepth ≤ levels + keys.length →
      Defines ground (ensureModel values ground.leaves levels) keys (ground.Next keys)
  | 0, keys, enough => defines_ensureModelStep same fun room => by omega
  | levels + 1, keys, enough => by
    refine defines_ensureModelStep same fun room definition => ?_
    exact defines_ensureModel same levels (by rw [List.length_cons]; omega)

end Lowering

end ModelForms
