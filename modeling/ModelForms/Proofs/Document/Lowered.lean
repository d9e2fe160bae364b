import ModelForms.Proofs.Document.ValueForms
import ModelForms.Proofs.Runs
import ModelForms.Proofs.Types.Closed

/-!
# What lowering leaves behind

Every part of a lowering that succeeds adds types made of known ones and reserves no names, so the
catalog is closed all the way (`Precedes`).  The induction is on the values of the document and the
expressions in them, and around it on the number of models that may be under way.

At the end every model is followed along its chain of aliases.  A lowered catalog is closed, so
every reference in it is one to a model of the document, and no chain of aliases breaks.
-/

namespace ModelForms

namespace LoweringState

variable {first second third before after : LoweringState} {leaves : Entries TypeId} {id : TypeId}

/-- The state with other types. -/
def withTypes (state : LoweringState) (types : TypeTable) : LoweringState :=
  { state with catalog := { state.catalog with types := types } }

/-- The catalog is closed, the leaves of the document are types of it, and its models are reserved
in it. -/
structure Sound (state : LoweringState) (leaves : Entries TypeId) : Prop where
  closed : state.catalog.Closed
  leaves : ∀ name id, leaves.lookup name = some id → state.catalog.types.Knows id
  declared : ∀ name definition, state.declared.lookup name = some definition →
    state.catalog.models.contains definition = true

/-- A sound state with more types than an earlier one, the same reserved names and the same models
of the document. -/
structure Precedes (before : LoweringState) (leaves : Entries TypeId) (after : LoweringState) :
    Prop where
  sound : after.Sound leaves
  types : before.catalog.types.GrowsTo after.catalog.types
  names : after.catalog.models.names = before.catalog.models.names
  declared : after.declared = before.declared

/-- The later state knows an id. -/
structure Makes (before : LoweringState) (leaves : Entries TypeId) (id : TypeId)
    (after : LoweringState) : Prop extends Precedes before leaves after where
  knows : after.catalog.types.Knows id

/-- What is under way has no part in what a sound state is. -/
theorem Sound.withUnderway (sound : before.Sound leaves) (underway : Guard ModelId) :
    { before with underway := underway }.Sound leaves :=
  ⟨sound.closed, sound.leaves, sound.declared⟩

theorem Precedes.refl (sound : before.Sound leaves) : before.Precedes leaves before :=
  ⟨sound, .refl _, rfl, rfl⟩

theorem Precedes.trans (h : first.Precedes leaves second) (h' : second.Precedes leaves third) :
    first.Precedes leaves third :=
  ⟨h'.sound, h.types.trans h'.types, h'.names.trans h.names, h'.declared.trans h.declared⟩

theorem Precedes.handles (h : before.Precedes leaves after) (definition : ModelId) :
    after.catalog.models.contains definition = before.catalog.models.contains definition :=
  Definitions.contains_eq_of_names_eq h.names definition

theorem Precedes.closed (h : before.Precedes leaves after) : after.catalog.Closed := h.sound.closed

theorem Precedes.makes (h : first.Precedes leaves second) (h' : second.Makes leaves id third) :
    first.Makes leaves id third :=
  ⟨h.trans h'.toPrecedes, h'.knows⟩

theorem Makes.later (h : first.Makes leaves id second) (h' : second.Precedes leaves third) :
    first.Makes leaves id third :=
  ⟨h.trans h', h'.types.knows h.knows⟩

theorem Sound.makes_of_adds (sound : before.Sound leaves) {types : TypeTable}
    (adds : before.catalog.Adds id types) : before.Makes leaves id (before.withTypes types) :=
  ⟨⟨⟨adds.closed, fun name leaf found => adds.grows.knows (sound.leaves name leaf found),
    sound.declared⟩, adds.grows, rfl, rfl⟩, adds.knows⟩

end LoweringState

namespace Lowering

variable {α : Type} {before after : LoweringState} {leaves : Entries TypeId} {id : TypeId}

/-! ## Steps -/

theorem gives_get_bind_iff {next : LoweringState → Lowering α} {result : α} :
    Gives (get >>= next) before result after ↔ Gives (next before) before result after :=
  Iff.rfl

theorem gives_models_bind_iff {next : Definitions → Lowering α} {result : α} :
    Gives (models >>= next) before result after
      ↔ Gives (next before.catalog.models) before result after :=
  Iff.rfl

theorem gives_interning_iff {action : Interning α} {result : α} :
    Gives (interning action) before result after
      ↔ result = (action before.catalog.types).1
        ∧ after = before.withTypes (action before.catalog.types).2 :=
  gives_modifyGet_iff

theorem run_attempt (action : Lowering α) : (attempt action).run.run before
    = (.ok (action.run.run before).1, (action.run.run before).2) :=
  rfl

theorem gives_attempt_iff {action : Lowering α} {outcome : Except DocumentError α} :
    Gives (attempt action) before outcome after ↔ action.run.run before = (outcome, after) := by
  show ((Except.ok (action.run.run before).1, (action.run.run before).2)
    : Except DocumentError (Except DocumentError α) × LoweringState) = _ ↔ _
  rw [Prod.mk.injEq, Except.ok.injEq, Prod.ext_iff]

theorem precedes_of_pure {a result : α} (sound : before.Sound leaves)
    (h : Gives (pure a : Lowering α) before result after) : before.Precedes leaves after := by
  obtain ⟨_, rfl⟩ := gives_pure_iff.1 h
  exact .refl sound

/-- A type made in one step. -/
theorem makes_of_interning {action : Interning TypeId} (sound : before.Sound leaves)
    (h : Gives (interning action) before id after)
    (adds : before.catalog.Adds (action before.catalog.types).1
      (action before.catalog.types).2) : before.Makes leaves id after := by
  obtain ⟨rfl, rfl⟩ := gives_interning_iff.1 h
  exact sound.makes_of_adds adds

theorem makes_of_composing {compose : Definitions → Interning (Option TypeId)}
    {failure : DocumentError} (sound : before.Sound leaves)
    (h : Gives (composing compose failure) before id after)
    (composes : before.catalog.Composes (compose before.catalog.models before.catalog.types)) :
    before.Makes leaves id after := by
  obtain ⟨_, _, gives, h⟩ := gives_bind_iff.1 (gives_models_bind_iff.1 h)
  obtain ⟨rfl, rfl⟩ := gives_interning_iff.1 gives
  split at h
  next found =>
    obtain ⟨rfl, rfl⟩ := gives_pure_iff.1 h
    exact sound.makes_of_adds (composes _ found)
  next => exact absurd h not_gives_throw

theorem precedes_of_note {name : String} (sound : before.Sound leaves)
    (h : Gives (interning (Interning.note name)) before () after) :
    before.Precedes leaves after := by
  obtain ⟨_, rfl⟩ := gives_interning_iff.1 h
  have grows := TypeTable.GrowsTo.of_entries_eq
    (show (Interning.note name before.catalog.types).2.entries = _ from rfl)
  exact ⟨⟨sound.closed.of_entries_eq rfl, fun name leaf found =>
    grows.knows (sound.leaves name leaf found), sound.declared⟩, grows, rfl, rfl⟩

/-! ## Type expressions -/

/-- A way to define models by name that leads from sound states to sound states. -/
def Careful (ensureModel : String → Lowering Unit) (leaves : Entries TypeId) : Prop :=
  ∀ name before after, before.Sound leaves → Gives (ensureModel name) before () after →
    before.Precedes leaves after

section

variable {ensureModel : String → Lowering Unit} {site : ExprSite}

theorem makes_of_lookupName (sound : before.Sound site.leaves) {name : String}
    (h : Gives (lookupName site name) before id after) : before.Makes site.leaves id after := by
  unfold lookupName at h
  rw [gives_get_bind_iff] at h
  split at h
  next definition found =>
    exact makes_of_interning sound h (sound.closed.adds_reference (sound.declared name _ found))
  next =>
    split at h
    next leaf found =>
      obtain ⟨rfl, rfl⟩ := gives_pure_iff.1 h
      exact ⟨.refl sound, sound.leaves name _ found⟩
    next => exact absurd h not_gives_throw

theorem precedes_of_ensureChain (careful : Careful ensureModel leaves) :
    ∀ (fuel : Nat) {visited : List ModelId} {id : TypeId} {before after : LoweringState},
      before.Sound leaves → Gives (ensureChain ensureModel fuel visited id) before () after →
      before.Precedes leaves after
  | 0, _, _, _, _, sound, h => precedes_of_pure sound h
  | fuel + 1, visited, id, before, after, sound, h => by
    rw [ensureChain, gives_get_bind_iff] at h
    cases hr : before.catalog.types.referenced? id with
    | none =>
      rw [hr] at h
      exact precedes_of_pure sound h
    | some definition =>
      simp only [hr] at h
      split at h
      next => exact precedes_of_pure sound h
      next =>
        rw [gives_get_bind_iff] at h
        split at h
        next =>
          obtain ⟨_, middle, gives, more⟩ := gives_bind_iff.1 h
          have first := careful _ _ _ sound gives
          rw [gives_models_bind_iff] at more
          split at more
          next => exact first.trans (precedes_of_ensureChain careful fuel first.sound more)
          next =>
            obtain ⟨_, rfl⟩ := gives_pure_iff.1 more
            exact first
        next =>
          rw [gives_models_bind_iff] at h
          split at h
          next => exact precedes_of_ensureChain careful fuel sound h
          next => exact precedes_of_pure sound h

theorem makes_of_prepareOperand (careful : Careful ensureModel leaves) {middle : LoweringState}
    (made : before.Makes leaves id middle)
    (h : Gives (prepareOperand ensureModel id) middle () after) : before.Makes leaves id after :=
  made.later (precedes_of_ensureChain careful _ made.sound h)

/-- Keys add nothing but names. -/
theorem precedes_of_keyNames {expr : TypeExpr} {keys : List String} (sound : before.Sound leaves)
    (h : Gives (keyNames site expr) before keys after) : before.Precedes leaves after := by
  cases expr with
  | string key =>
    obtain ⟨_, _, notes, h⟩ := gives_bind_iff.1 h
    obtain ⟨_, rfl⟩ := gives_pure_iff.1 h
    exact precedes_of_note sound notes
  | keyword k =>
    cases k with
    | never => exact precedes_of_pure sound h
    | _ => exact absurd h not_gives_throw
  | union members =>
    unfold keyNames at h
    simp only at h
    induction members generalizing before keys with
    | nil => exact precedes_of_pure sound h
    | cons first rest ih =>
      obtain ⟨_, _, _, gives, more, _⟩ := gives_mapM_cons_iff.1 h
      split at gives
      next =>
        obtain ⟨_, _, notes, gives⟩ := gives_bind_iff.1 gives
        obtain ⟨_, rfl⟩ := gives_pure_iff.1 gives
        have noted := precedes_of_note sound notes
        exact noted.trans (ih noted.sound more)
      next => exact absurd gives not_gives_throw
  | _ => exact absurd h not_gives_throw

theorem not_gives_refuseArguments {name : String} {count : Nat} {result : α} :
    ¬ Gives (refuseArguments site name count : Lowering α) before result after := by
  unfold refuseArguments
  split <;> exact not_gives_throw

theorem makes_of_partialOf (sound : before.Sound leaves) {operand : TypeId}
    (h : Gives (partialOf site operand) before id after) : before.Makes leaves id after :=
  makes_of_composing sound h sound.closed.composes_allOptional

theorem makes_of_selectionOf (sound : before.Sound leaves) {name : String} {operand : TypeId}
    {keys : List String} (h : Gives (selectionOf site name operand keys) before id after) :
    before.Makes leaves id after := by
  refine makes_of_composing sound h ?_
  split
  · exact sound.closed.composes_without keys
  · exact sound.closed.composes_only keys

mutual

theorem makes_of_typeOfExpr (careful : Careful ensureModel site.leaves) :
    ∀ (expr : TypeExpr) {before after : LoweringState} {id : TypeId}, before.Sound site.leaves →
      Gives (typeOfExpr ensureModel site expr) before id after →
      before.Makes site.leaves id after
  | .keyword k, _, _, _, sound, h => by
    rw [typeOfExpr] at h
    obtain ⟨rfl, rfl⟩ := gives_pure_iff.1 h
    exact ⟨.refl sound, TypeTable.knows_intrinsic _ k⟩
  | .string _, _, _, _, sound, h | .number _, _, _, _, sound, h | .boolean _, _, _, _, sound, h => by
    rw [typeOfExpr] at h
    exact makes_of_interning sound h (sound.closed.adds_literal _)
  | .array element, _, _, _, sound, h => by
    rw [typeOfExpr] at h
    obtain ⟨_, _, gives, h⟩ := gives_bind_iff.1 h
    have made := makes_of_typeOfExpr careful element sound gives
    exact made.makes (makes_of_interning made.sound h (made.closed.adds_array made.knows))
  | .union members, _, _, _, sound, h => by
    rw [typeOfExpr] at h
    obtain ⟨_, _, gives, h⟩ := gives_bind_iff.1 h
    obtain ⟨made, known⟩ := precedes_of_typesOfExprs careful members sound gives
    exact made.makes (makes_of_interning made.sound h (made.closed.adds_union known))
  | .intersection [], _, _, _, _, h => by
    rw [typeOfExpr] at h
    exact absurd h not_gives_throw
  | .intersection (first :: rest), _, _, _, sound, h => by
    rw [typeOfExpr] at h
    obtain ⟨_, _, gives, h⟩ := gives_bind_iff.1 h
    obtain ⟨_, _, prepares, h⟩ := gives_bind_iff.1 h
    have made :=
      makes_of_prepareOperand careful (makes_of_typeOfExpr careful first sound gives) prepares
    exact made.makes (makes_of_intersectionOf careful rest made.sound made.knows h)
  | .reference name [], _, _, _, sound, h => by
    rw [typeOfExpr] at h
    split at h
    next => exact absurd h not_gives_throw
    next => exact makes_of_lookupName sound h
  | .reference name [operand], _, _, _, sound, h => by
    rw [typeOfExpr] at h
    split at h
    next =>
      obtain ⟨_, _, gives, h⟩ := gives_bind_iff.1 h
      have made := makes_of_typeOfExpr careful operand sound gives
      exact made.makes (makes_of_interning made.sound h (made.closed.adds_array made.knows))
    next =>
      split at h
      next =>
        obtain ⟨_, _, gives, h⟩ := gives_bind_iff.1 h
        obtain ⟨_, _, prepares, h⟩ := gives_bind_iff.1 h
        have made :=
          makes_of_prepareOperand careful (makes_of_typeOfExpr careful operand sound gives) prepares
        exact made.makes (makes_of_partialOf made.sound h)
      next => exact absurd h not_gives_refuseArguments
  | .reference name [operand, keys], _, _, _, sound, h => by
    rw [typeOfExpr] at h
    split at h
    next =>
      obtain ⟨_, _, gives, h⟩ := gives_bind_iff.1 h
      obtain ⟨_, _, prepares, h⟩ := gives_bind_iff.1 h
      obtain ⟨_, _, notes, h⟩ := gives_bind_iff.1 h
      have made :=
        makes_of_prepareOperand careful (makes_of_typeOfExpr careful operand sound gives) prepares
      have noted := made.later (precedes_of_keyNames made.sound notes)
      exact noted.makes (makes_of_selectionOf noted.sound h)
    next => exact absurd h not_gives_refuseArguments
  | .reference name (_ :: _ :: _ :: _), _, _, _, _, h => by
    rw [typeOfExpr] at h
    · exact absurd h not_gives_refuseArguments
    all_goals simp

theorem precedes_of_typesOfExprs (careful : Careful ensureModel site.leaves) :
    ∀ (exprs : List TypeExpr) {before after : LoweringState} {ids : List TypeId},
      before.Sound site.leaves → Gives (typesOfExprs ensureModel site exprs) before ids after →
      before.Precedes site.leaves after ∧ ∀ id ∈ ids, after.catalog.types.Knows id
  | [], _, _, _, sound, h => by
    rw [typesOfExprs] at h
    obtain ⟨rfl, rfl⟩ := gives_pure_iff.1 h
    exact ⟨.refl sound, by simp⟩
  | expr :: rest, _, _, _, sound, h => by
    rw [typesOfExprs] at h
    obtain ⟨_, _, gives, h⟩ := gives_bind_iff.1 h
    obtain ⟨_, _, more, h⟩ := gives_bind_iff.1 h
    obtain ⟨rfl, rfl⟩ := gives_pure_iff.1 h
    have made := makes_of_typeOfExpr careful expr sound gives
    obtain ⟨others, known⟩ := precedes_of_typesOfExprs careful rest made.sound more
    exact ⟨made.trans others, List.forall_mem_cons.2 ⟨others.types.knows made.knows, known⟩⟩

theorem makes_of_intersectionOf (careful : Careful ensureModel site.leaves) :
    ∀ (exprs : List TypeExpr) {base : TypeId} {before after : LoweringState} {id : TypeId},
      before.Sound site.leaves → before.catalog.types.Knows base →
      Gives (intersectionOf ensureModel site base exprs) before id after →
      before.Makes site.leaves id after
  | [], _, _, _, _, sound, known, h => by
    rw [intersectionOf] at h
    obtain ⟨rfl, rfl⟩ := gives_pure_iff.1 h
    exact ⟨.refl sound, known⟩
  | expr :: rest, base, _, _, _, sound, _, h => by
    rw [intersectionOf] at h
    obtain ⟨extra, _, gives, h⟩ := gives_bind_iff.1 h
    obtain ⟨_, _, prepares, h⟩ := gives_bind_iff.1 h
    obtain ⟨_, _, composes, h⟩ := gives_bind_iff.1 h
    have made :=
      makes_of_prepareOperand careful (makes_of_typeOfExpr careful expr sound gives) prepares
    have extended := made.makes
      (makes_of_composing made.sound composes (made.closed.composes_extend base extra))
    exact extended.makes (makes_of_intersectionOf careful rest extended.sound extended.knows h)

end

/-! ## Values -/

theorem makes_of_typeOfText (careful : Careful ensureModel leaves) {location : Location}
    {text : String} (sound : before.Sound leaves)
    (h : Gives (typeOfText ensureModel leaves location text) before id after) :
    before.Makes leaves id after := by
  unfold typeOfText at h
  split at h
  next expr _ => exact @makes_of_typeOfExpr _ ⟨text, location, leaves⟩ careful expr _ _ _ sound h
  next => exact absurd h not_gives_throw

mutual

theorem makes_of_typeOfValue (careful : Careful ensureModel leaves) :
    ∀ (value : Json) {location : Location} {before after : LoweringState} {id : TypeId},
      before.Sound leaves → Gives (typeOfValue ensureModel leaves location value) before id after →
      before.Makes leaves id after
  | .string text, _, _, _, _, sound, h => by
    rw [typeOfValue] at h
    exact makes_of_typeOfText careful sound h
  | .object [(key, inner)], location, _, _, _, sound, h => by
    cases keyForm key with
    | array is =>
      subst is
      rw [typeOfValue_array] at h
      obtain ⟨_, _, gives, h⟩ := gives_bind_iff.1 h
      have made := makes_of_typeOfValue careful inner sound gives
      exact made.makes (makes_of_interning made.sound h (made.closed.adds_array made.knows))
    | nullable is =>
      subst is
      rw [typeOfValue_nullable] at h
      obtain ⟨_, _, gives, h⟩ := gives_bind_iff.1 h
      have made := makes_of_typeOfValue careful inner sound gives
      exact made.makes (makes_of_interning made.sound h (made.closed.adds_nullable made.knows))
    | union is =>
      subst is
      match inner, h with
      | .array items, h =>
        rw [typeOfValue_union] at h
        obtain ⟨_, _, gives, h⟩ := gives_bind_iff.1 h
        obtain ⟨made, known⟩ := precedes_of_typesOfItems careful items sound gives
        exact made.makes (makes_of_interning made.sound h (made.closed.adds_union known))
      | .null, h | .bool _, h | .number _, h | .string _, h | .object _, h =>
        rw [typeOfValue_union_of_ne (by simp)] at h
        exact absurd h not_gives_throw
    | unknown directive unknown =>
      rw [typeOfValue_unknown directive unknown] at h
      exact absurd h not_gives_throw
    | name plain =>
      rw [typeOfValue_members (plain_of_name plain inner)] at h
      obtain ⟨_, _, lists, h⟩ := gives_bind_iff.1 h
      obtain ⟨listed, known, names, _⟩ :=
        precedes_of_propertiesOfMembers careful [(key, inner)] sound lists
      exact listed.makes (makes_of_interning listed.sound h (listed.closed.adds_object known names))
  | .object [], _, _, _, _, sound, h | .object (_ :: _ :: _), _, _, _, _, sound, h => by
    rw [typeOfValue_members (by simp)] at h
    obtain ⟨_, _, lists, h⟩ := gives_bind_iff.1 h
    obtain ⟨listed, known, names, _⟩ := precedes_of_propertiesOfMembers careful _ sound lists
    exact listed.makes (makes_of_interning listed.sound h (listed.closed.adds_object known names))
  | .null, _, _, _, _, _, h | .bool _, _, _, _, _, _, h | .number _, _, _, _, _, _, h
  | .array _, _, _, _, _, _, h => by
    rw [typeOfValue] at h
    exact absurd h not_gives_throw

theorem precedes_of_typesOfItems (careful : Careful ensureModel leaves) :
    ∀ (items : List Json) {location : Location} {index : Nat} {before after : LoweringState}
      {ids : List TypeId}, before.Sound leaves →
      Gives (typesOfItems ensureModel leaves location index items) before ids after →
      before.Precedes leaves after ∧ ∀ id ∈ ids, after.catalog.types.Knows id
  | [], _, _, _, _, _, sound, h => by
    rw [typesOfItems] at h
    obtain ⟨rfl, rfl⟩ := gives_pure_iff.1 h
    exact ⟨.refl sound, by simp⟩
  | item :: rest, _, _, _, _, _, sound, h => by
    rw [typesOfItems] at h
    obtain ⟨_, _, gives, h⟩ := gives_bind_iff.1 h
    obtain ⟨_, _, more, h⟩ := gives_bind_iff.1 h
    obtain ⟨rfl, rfl⟩ := gives_pure_iff.1 h
    have made := makes_of_typeOfValue careful item sound gives
    obtain ⟨others, known⟩ := precedes_of_typesOfItems careful rest made.sound more
    exact ⟨made.trans others, List.forall_mem_cons.2 ⟨others.types.knows made.knows, known⟩⟩

/-- The properties that are listed have distinct names, none of which came before. -/
theorem precedes_of_propertiesOfMembers (careful : Careful ensureModel leaves) :
    ∀ (members : List (String × Json)) {location : Location} {seen : List String}
      {before after : LoweringState} {properties : List Property}, before.Sound leaves →
      Gives (propertiesOfMembers ensureModel leaves location seen members) before properties
        after →
      before.Precedes leaves after ∧ (∀ p ∈ properties, after.catalog.types.Knows p.type)
        ∧ (properties.map Property.name).Nodup ∧ ∀ p ∈ properties, p.name ∉ seen
  | [], _, _, _, _, _, sound, h => by
    rw [propertiesOfMembers] at h
    obtain ⟨rfl, rfl⟩ := gives_pure_iff.1 h
    exact ⟨.refl sound, by simp⟩
  | (key, value) :: rest, _, seen, _, _, _, sound, h => by
    cases labelForm key seen with
    | empty empty =>
      rw [propertiesOfMembers_of_empty empty] at h
      exact absurd h not_gives_throw
    | taken named taken =>
      rw [propertiesOfMembers_of_taken named taken] at h
      exact absurd h not_gives_throw
    | new named new =>
      rw [propertiesOfMembers_of_new named new] at h
      obtain ⟨_, _, gives, h⟩ := gives_bind_iff.1 h
      obtain ⟨_, _, more, h⟩ := gives_bind_iff.1 h
      obtain ⟨rfl, rfl⟩ := gives_pure_iff.1 h
      have made := makes_of_typeOfValue careful value sound gives
      obtain ⟨others, known, names, later⟩ :=
        precedes_of_propertiesOfMembers careful rest made.sound more
      refine ⟨made.trans others, List.forall_mem_cons.2 ⟨others.types.knows made.knows, known⟩,
        List.nodup_cons.2 ⟨fun hmem => ?_, names⟩, List.forall_mem_cons.2
          ⟨new, fun p hp hmem => later p hp (List.mem_cons_of_mem _ hmem)⟩⟩
      obtain ⟨p, hp, same⟩ := List.mem_map.1 hmem
      exact later p hp (by simp [same])

end

end

/-! ## Models -/

theorem precedes_of_define {definition : ModelId} {body : TypeId} (sound : before.Sound leaves)
    (known : before.catalog.types.Knows body)
    (h : Gives (define definition body) before () after) : before.Precedes leaves after := by
  obtain ⟨_, rfl⟩ := gives_modifyGet_iff.1 h
  refine ⟨⟨⟨⟨sound.closed.wellFormed.types, fun other found is_body => ?_⟩, sound.closed.distinct,
    fun other h => ?_⟩, sound.leaves, fun name other found => ?_⟩, .refl _,
    Definitions.names_define, rfl⟩
  · rcases Definitions.body?_of_define is_body with rfl | is_body
    · exact known
    · exact sound.closed.wellFormed.bodies other found is_body
  · exact Definitions.contains_define.trans (sound.closed.reserved other h)
  · exact Definitions.contains_define.trans (sound.declared name other found)

/-- Nothing is done for a name without a value and for a model that is defined.  Any other model is
entered while its value is lowered, and then it is defined. -/
theorem gives_ensureModelStep_iff {values : Entries Json} {defineOther : String → Lowering Unit}
    {name : String} :
    Gives (ensureModelStep values leaves defineOther name) before () after
      ↔ match before.declared.lookup name, values.lookup name with
        | some definition, some value =>
            if before.catalog.models.isDefined definition then after = before
            else (before.underway.enter definition).1 = .entered ∧ ∃ body middle,
              Gives (typeOfValue defineOther leaves (modelLocation name) value)
                  { before with underway := (before.underway.enter definition).2 } body middle
                ∧ Gives (define definition body)
                  { middle with underway := middle.underway.leave definition } () after
        | _, _ => after = before := by
  have idle : Gives (pure () : Lowering Unit) before () after ↔ after = before := by
    rw [gives_pure_iff, and_iff_right rfl]
  unfold ensureModelStep
  rw [gives_get_bind_iff]
  cases before.declared.lookup name with
  | none => exact idle
  | some definition =>
    cases values.lookup name with
    | none => exact idle
    | some value =>
      simp only [gives_models_bind_iff]
      by_cases defined : before.catalog.models.isDefined definition = true
      · rw [if_pos defined, if_pos defined]
        exact idle
      · rw [if_neg defined, if_neg defined, gives_modifyGet_bind_iff]
        cases (before.underway.enter definition).1 with
        | cycle | tooDeep | tooMany => exact iff_of_false not_gives_throw fun h => nomatch h.1
        | entered =>
          rw [and_iff_right rfl]
          show Gives (attempt _ >>= _) _ () after ↔ _
          rw [gives_bind_iff]
          constructor
          · rintro ⟨outcome, middle, attempts, h⟩
            replace h := gives_modifyGet_bind_iff.1 h
            cases outcome with
            | ok body => exact ⟨body, middle, gives_attempt_iff.1 attempts, h⟩
            | error error => exact absurd h not_gives_throw
          · rintro ⟨body, middle, gives, defines⟩
            exact ⟨.ok body, middle, gives_attempt_iff.2 gives, defines⟩

theorem careful_ensureModelStep {values : Entries Json} {defineOther : String → Lowering Unit}
    (careful : Careful defineOther leaves) :
    Careful (ensureModelStep values leaves defineOther) leaves := by
  intro name before after sound h
  rw [gives_ensureModelStep_iff] at h
  split at h
  next definition value _ _ =>
    split at h
    next =>
      cases h
      exact .refl sound
    next =>
      obtain ⟨_, body, middle, gives, defines⟩ := h
      have made := makes_of_typeOfValue careful value (sound.withUnderway _) gives
      have left : before.Precedes _ { middle with underway := middle.underway.leave definition } :=
        ⟨made.sound.withUnderway _, made.types, made.names, made.declared⟩
      exact left.trans (precedes_of_define left.sound made.knows defines)
  next =>
    cases h
    exact .refl sound

theorem careful_ensureModel {values : Entries Json} :
    ∀ levels, Careful (ensureModel values leaves levels) leaves
  | 0 => careful_ensureModelStep fun _ _ _ sound h => precedes_of_pure sound h
  | levels + 1 => careful_ensureModelStep (careful_ensureModel levels)

theorem precedes_of_forM {step : String → Lowering Unit} (careful : Careful step leaves)
    (names : List String) (sound : before.Sound leaves)
    (h : Gives (names.forM step) before () after) : before.Precedes leaves after := by
  induction names generalizing before with
  | nil => exact precedes_of_pure sound h
  | cons name rest ih =>
    obtain ⟨_, gives, more⟩ := gives_forM_cons_iff.1 h
    have first := careful name _ _ sound gives
    exact first.trans (ih first.sound more)

/-! ## Leaves and names -/

theorem sound_start : LoweringState.start.Sound [] :=
  ⟨.empty, nofun, nofun⟩

theorem sound_of_addLeaf {name : String} {more : Entries TypeId} (sound : before.Sound leaves)
    (h : Gives (addLeaf leaves name) before more after) :
    after.Sound more ∧ after.catalog.models = before.catalog.models := by
  unfold addLeaf at h
  simp only at h
  split at h
  next => exact absurd h not_gives_throw_bind
  next =>
    obtain ⟨id, _, gives, h⟩ := gives_bind_iff.1 h
    obtain ⟨rfl, rfl⟩ := gives_pure_iff.1 h
    have made := makes_of_interning sound gives (sound.closed.adds_leaf name)
    obtain ⟨rfl, rfl⟩ := gives_interning_iff.1 gives
    refine ⟨⟨made.closed, fun other leaf found => ?_, made.sound.declared⟩, rfl⟩
    rw [Entries.lookup_put] at found
    split at found
    · cases found
      exact made.knows
    · exact made.sound.leaves other leaf found

theorem sound_of_addLeaves (names : List String) {more : Entries TypeId}
    (sound : before.Sound leaves) (h : Gives (names.foldlM addLeaf leaves) before more after) :
    after.Sound more ∧ after.catalog.models = before.catalog.models := by
  induction names generalizing before leaves with
  | nil =>
    obtain ⟨rfl, rfl⟩ := gives_pure_iff.1 h
    exact ⟨sound, rfl⟩
  | cons name rest ih =>
    rw [List.foldlM_cons] at h
    obtain ⟨_, _, gives, h⟩ := gives_bind_iff.1 h
    obtain ⟨middle, first⟩ := sound_of_addLeaf sound gives
    obtain ⟨last, others⟩ := ih middle h
    exact ⟨last, others.trans first⟩

/-- A model that is added is a name with the handle that is reserved for it. -/
theorem of_gives_addModel {name : String} {model : String × ModelId}
    (h : Gives (addModel leaves name) before model after) :
    model = (name, (before.catalog.models.reserve name).1)
      ∧ after = { before with
        catalog := ⟨(Interning.note name before.catalog.types).2,
          (before.catalog.models.reserve name).2⟩ } := by
  unfold addModel at h
  simp only at h
  split at h
  next => exact absurd h not_gives_throw_bind
  next =>
    obtain ⟨_, _, reserves, h⟩ := gives_bind_iff.1 h
    obtain ⟨rfl, rfl⟩ := gives_pure_iff.1 h
    obtain ⟨_, middle, notes, reserves⟩ := gives_bind_iff.1 reserves
    obtain ⟨rfl, rfl⟩ := gives_modifyGet_iff.1 reserves
    obtain ⟨_, rfl⟩ := gives_interning_iff.1 notes
    exact ⟨rfl, rfl⟩

/-- The handle that a name is given is all that is reserved with it. -/
theorem sound_of_addModel {name : String} {model : String × ModelId} (sound : before.Sound leaves)
    (h : Gives (addModel leaves name) before model after) :
    after.Sound leaves ∧ ∀ definition, after.catalog.models.contains definition = true
      ↔ before.catalog.models.contains definition = true ∨ definition = model.2 := by
  obtain ⟨rfl, rfl⟩ := of_gives_addModel h
  have same : (Interning.note name before.catalog.types).2.entries = _ := rfl
  have grows := TypeTable.GrowsTo.of_entries_eq same
  exact ⟨⟨(sound.closed.of_entries_eq same).reserve name,
    fun name leaf found => grows.knows (sound.leaves name leaf found),
    fun other definition found =>
      Definitions.contains_reserve_iff.2 (.inl (sound.declared other definition found))⟩,
    fun _ => Definitions.contains_reserve_iff⟩

theorem sound_of_addModels (names : List String) {models : List (String × ModelId)}
    (sound : before.Sound leaves) (h : Gives (names.mapM (addModel leaves)) before models after) :
    after.Sound leaves ∧ ∀ definition, after.catalog.models.contains definition = true
      ↔ before.catalog.models.contains definition = true
        ∨ ∃ model ∈ models, model.2 = definition := by
  induction names generalizing before models with
  | nil =>
    obtain ⟨rfl, rfl⟩ := gives_pure_iff.1 h
    exact ⟨sound, by simp⟩
  | cons name rest ih =>
    obtain ⟨model, _, others, gives, more, rfl⟩ := gives_mapM_cons_iff.1 h
    obtain ⟨middle, first⟩ := sound_of_addModel sound gives
    obtain ⟨last, handles⟩ := ih middle more
    refine ⟨last, fun definition => ?_⟩
    rw [handles, first]
    simp only [List.mem_cons, exists_eq_or_imp, or_assoc, @eq_comm _ definition]

/-- Every name is found under the handle that it was given, whichever names came after it. -/
theorem find?_of_addModels (names : List String) {models : Entries ModelId}
    (h : Gives (names.mapM (addModel leaves)) before models after) :
    models.keys = names
      ∧ (∀ name definition, before.catalog.models.find? name = some definition →
        after.catalog.models.find? name = some definition)
      ∧ ∀ model ∈ models, after.catalog.models.find? model.1 = some model.2 := by
  induction names generalizing before models with
  | nil =>
    obtain ⟨rfl, rfl⟩ := gives_pure_iff.1 h
    exact ⟨rfl, fun _ _ found => found, by simp⟩
  | cons name rest ih =>
    obtain ⟨model, middle, others, gives, more, rfl⟩ := gives_mapM_cons_iff.1 h
    obtain ⟨rfl, rfl⟩ := of_gives_addModel gives
    obtain ⟨keys, kept, found⟩ := ih more
    exact ⟨congrArg (name :: ·) keys,
      fun _ _ h => kept _ _ (Definitions.find?_reserve_of_eq_some h),
      List.forall_mem_cons.2 ⟨kept _ _ (Definitions.find?_reserve _ name), found⟩⟩

/-- The models that names have been reserved for become the models of the document. -/
theorem sound_of_declare {models : Entries ModelId} (sound : before.Sound leaves)
    (reserved : ∀ model ∈ models, before.catalog.models.contains model.2 = true)
    (h : Gives (declare models) before () after) :
    after.Sound leaves ∧ after.catalog = before.catalog ∧ after.declared = models := by
  obtain ⟨_, rfl⟩ := gives_modifyGet_iff.1 h
  exact ⟨⟨sound.closed, sound.leaves,
    fun _ _ found => reserved _ (Entries.mem_of_lookup found)⟩, rfl, rfl⟩

/-! ## Chains -/

theorem ends_of_checkModel {model : String × ModelId} (sound : before.Sound leaves)
    (reserved : before.catalog.models.contains model.2 = true)
    (h : Gives (checkModel model) before () after) :
    after.Sound leaves ∧ before.catalog.GrowsTo after.catalog ∧ after.catalog.Ends model.2 := by
  obtain ⟨id, middle, gives, h⟩ := gives_bind_iff.1 h
  have made := makes_of_interning sound gives (sound.closed.adds_reference reserved)
  obtain ⟨rfl, rfl⟩ := gives_interning_iff.1 gives
  rw [gives_get_bind_iff] at h
  split at h
  next target resolves =>
    obtain ⟨_, rfl⟩ := gives_pure_iff.1 h
    exact ⟨made.sound, ⟨made.types, rfl⟩, _, target, TypeTable.lookup_intern _ _, resolves⟩
  next => exact absurd h not_gives_throw

theorem ends_of_checkModels (models : List (String × ModelId)) (sound : before.Sound leaves)
    (reserved : ∀ model ∈ models, before.catalog.models.contains model.2 = true)
    (h : Gives (models.forM checkModel) before () after) :
    after.Sound leaves ∧ before.catalog.GrowsTo after.catalog
      ∧ ∀ model ∈ models, after.catalog.Ends model.2 := by
  induction models generalizing before with
  | nil =>
    obtain ⟨_, rfl⟩ := gives_pure_iff.1 h
    exact ⟨sound, .refl _, by simp⟩
  | cons model rest ih =>
    obtain ⟨_, gives, more⟩ := gives_forM_cons_iff.1 h
    obtain ⟨middle, grows, ends⟩ :=
      ends_of_checkModel sound (reserved model List.mem_cons_self) gives
    obtain ⟨last, later, others⟩ := ih middle
      (fun other h => by rw [grows.models]; exact reserved other (List.mem_cons_of_mem _ h)) more
    exact ⟨last, grows.trans later, List.forall_mem_cons.2
      ⟨ends.growsTo later middle.closed.wellFormed, others⟩⟩

theorem complete_of_lowerAll {document : Document} {result : Entries ModelId × Entries TypeId}
    (h : Gives (lowerAll document) .start result after) :
    after.catalog.Complete result.1 ∧ result.1.keys = document.models.keys := by
  obtain ⟨leaves, first, addsLeaves, h⟩ := gives_bind_iff.1 h
  obtain ⟨models, second, addsModels, h⟩ := gives_bind_iff.1 h
  obtain ⟨_, third, declares, h⟩ := gives_bind_iff.1 h
  obtain ⟨_, fourth, ensures, h⟩ := gives_bind_iff.1 h
  obtain ⟨_, fifth, checks, h⟩ := gives_bind_iff.1 h
  obtain ⟨rfl, rfl⟩ := gives_pure_iff.1 h
  obtain ⟨sound, none_yet⟩ := sound_of_addLeaves document.leaves sound_start addsLeaves
  obtain ⟨sound, handles⟩ := sound_of_addModels document.models.keys sound addsModels
  obtain ⟨keys, _, found⟩ := find?_of_addModels document.models.keys addsModels
  have handles (definition : ModelId) : second.catalog.models.contains definition = true
      ↔ ∃ model ∈ models, model.2 = definition := by
    have nothing : LoweringState.start.catalog.models.contains definition ≠ true := by
      rw [Ne, Definitions.contains_iff]
      exact fun ⟨proper, le⟩ => proper (Nat.le_zero.1 le)
    rw [handles, none_yet, or_iff_right nothing]
  obtain ⟨sound, same, _⟩ :=
    sound_of_declare sound (fun model h => (handles model.2).2 ⟨model, h, rfl⟩) declares
  have ensured := precedes_of_forM (careful_ensureModel _) document.models.keys sound ensures
  have handles (definition : ModelId) : fourth.catalog.models.contains definition = true
      ↔ ∃ model ∈ models, model.2 = definition := by
    rw [ensured.handles, same, handles]
  obtain ⟨last, grows, ends⟩ := ends_of_checkModels models ensured.sound
    (fun model h => (handles model.2).2 ⟨model, h, rfl⟩) checks
  refine ⟨⟨last.closed, fun definition => ?_, fun model hmodel => ?_, ends⟩, keys⟩
  · rw [grows.models]
    exact handles definition
  · rw [grows.models, Definitions.find?_eq_of_names_eq ensured.names, same]
    exact found model hmodel

end Lowering

/-- What a lowered document is made of. -/
theorem Document.lower_eq_ok_iff {document : Document} {lowered : Lowered} :
    document.lower = .ok lowered ↔ ∃ result after hints mode,
      Gives (Lowering.lowerAll document) .start result after
        ∧ document.hint = .ok hints ∧ document.modeChoice = .ok mode
        ∧ lowered = ⟨after.catalog, result.1, result.2, hints, mode, document.root⟩ := by
  constructor
  · intro h
    unfold lower at h
    cases run : (Lowering.lowerAll document).run.run LoweringState.start with
    | mk outcome after =>
      rw [run] at h
      cases outcome with
      | error error => cases h
      | ok result =>
        cases hint : document.hint with
        | error error =>
          rw [hint] at h
          cases h
        | ok hints =>
          cases choice : document.modeChoice with
          | error error =>
            rw [hint, choice] at h
            cases h
          | ok mode =>
            rw [hint, choice] at h
            cases h
            exact ⟨result, after, hints, mode, run, rfl, rfl, rfl⟩
  · rintro ⟨result, after, hints, mode, run, hint, choice, rfl⟩
    unfold Gives at run
    rw [lower, run, hint, choice]
    rfl

/-- A lowered document has the models that it declares, and its catalog is complete with them. -/
theorem Document.complete_of_lower {document : Document} {lowered : Lowered}
    (h : document.lower = .ok lowered) :
    lowered.catalog.Complete lowered.models ∧ lowered.models.keys = document.models.keys := by
  obtain ⟨_, _, _, _, gives, _, _, rfl⟩ := lower_eq_ok_iff.1 h
  exact Lowering.complete_of_lowerAll gives

/-- A lowered document refers to its own models only, and each chain of aliases in it ends. -/
theorem Document.closed_of_lower {document : Document} {lowered : Lowered}
    (h : document.lower = .ok lowered) :
    lowered.catalog.Closed ∧ lowered.catalog.Unbroken :=
  ⟨(complete_of_lower h).1.closed, (complete_of_lower h).1.unbroken⟩

end ModelForms
