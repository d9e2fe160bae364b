import ModelForms.Proofs.Runs
import ModelForms.Proofs.Types.Stripping
import ModelForms.Tree.Derive

/-!
# What a derivation adds

A derivation adds nothing to the table but unions, and leaves what is there, whether it fails or not
(`DerivedForm.addsUnions_derive`).  Two kinds of types are interned on the way: what is left of a
declared type when `null` and `undefined` are set aside, and the type of a control's value.  Either
is there already or is a union.

This needs nothing of the table or of the root.  It follows the text of `Expansion.node`, where the
table is touched in two places and the guard and the counter are all else that changes.
-/

namespace ModelForms

namespace TypeTable

theorem AddsUnions.lookup {earlier later : TypeTable} (adds : earlier.AddsUnions later) {id : TypeId}
    {entry : TypeEntry} (h : later.lookup id = some entry) :
    earlier.lookup id = some entry ∨ ∃ members, entry = .union members := by
  obtain ⟨added, hadded, unions⟩ := adds
  unfold TypeTable.lookup at h ⊢
  split at h
  next intrinsic => exact Or.inl (by rw [if_pos intrinsic]; exact h)
  next given =>
    rw [if_neg given]
    rw [hadded, List.getElem?_append] at h
    split at h
    next => exact Or.inl h
    next => exact Or.inr (unions entry (List.mem_of_getElem? h))

theorem addsUnions_union (members : List TypeId) (table : TypeTable) :
    table.AddsUnions (Interning.union members table).2 := by
  rw [union_eq]
  cases normalize (table.flatten members) with
  | single id => exact .refl table
  | several ms => exact addsUnions_intern ms table

end TypeTable

namespace Catalog

theorem addsUnions_withoutNullish (models : Definitions) (id : TypeId) (table : TypeTable) :
    table.AddsUnions (Interning.withoutNullish models id table).2 := by
  rw [withoutNullish_eq]
  cases strip ⟨table, models⟩ id with
  | single only => exact .refl table
  | several ms => exact TypeTable.addsUnions_union ms table

theorem addsUnions_controlType (models : Definitions) (id : TypeId) (nullable : Bool)
    (table : TypeTable) :
    table.AddsUnions (Interning.controlType models id nullable table).2 := by
  have strips := addsUnions_withoutNullish models id table
  rw [controlType_eq]
  cases nullable with
  | false => exact strips
  | true => exact strips.trans (TypeTable.addsUnions_union _ _)

end Catalog

namespace Expansion

/-- An action adds nothing but unions, whether it fails or not. -/
def AddsOnlyUnions {α : Type} (action : Expanding α) : Prop :=
  ∀ state : ExpansionState, state.types.AddsUnions (action.run.run state).2.types

namespace AddsOnlyUnions

variable {α β : Type}

theorem pure (a : α) : AddsOnlyUnions (Pure.pure a) := fun state => .refl state.types

theorem throw (error : DerivationError) : AddsOnlyUnions (MonadExcept.throw error : Expanding α) :=
  fun state => .refl state.types

theorem get : AddsOnlyUnions MonadState.get := fun state => .refl state.types

theorem modifyGet {f : ExpansionState → α × ExpansionState}
    (same : ∀ state, (f state).2.types = state.types) :
    AddsOnlyUnions (MonadStateOf.modifyGet f : Expanding α) := by
  intro state
  show state.types.AddsUnions (f state).2.types
  rw [same]
  exact .refl state.types

theorem intern {action : Interning α} (adds : ∀ table, TypeTable.AddsUnions table (action table).2) :
    AddsOnlyUnions (Expansion.intern action) :=
  fun state => adds state.types

theorem bind {action : Expanding α} (first : AddsOnlyUnions action) {next : α → Expanding β}
    (rest : ∀ a, AddsOnlyUnions (next a)) : AddsOnlyUnions (action >>= next) := by
  intro state
  have here := first state
  rw [run_bind]
  cases outcome : action.run.run state with
  | mk result middle =>
  rw [outcome] at here
  cases result with
  | ok a => exact here.trans (rest a middle)
  | error error => exact here

theorem thenAlways {action : Expanding α} (first : AddsOnlyUnions action)
    {change : ExpansionState → ExpansionState} (same : ∀ state, (change state).types = state.types) :
    AddsOnlyUnions (Expansion.thenAlways action change) := by
  intro state
  show state.types.AddsUnions (change (action.run.run state).2).types
  rw [same]
  exact first state

end AddsOnlyUnions

variable {expansion : Expansion} {action : Expanding TreeNode} {below : Maker} {path : FieldPath}
  {hint : Hint}

theorem addsOnlyUnions_catalog : AddsOnlyUnions expansion.catalog := .bind .get fun _ => .pure _

theorem addsOnlyUnions_decide (type : TypeId) (optional : Bool) :
    AddsOnlyUnions (decide expansion type optional) :=
  .bind addsOnlyUnions_catalog fun _ => .pure _

theorem addsOnlyUnions_withinLevel (adds : AddsOnlyUnions action) :
    AddsOnlyUnions (withinLevel path action) := by
  unfold withinLevel
  refine .bind (.modifyGet fun _ => rfl) fun entered => ?_
  cases entered with
  | true => exact adds.thenAlways fun _ => rfl
  | false => exact .bind .get fun _ => .throw _

theorem addsOnlyUnions_withinModel (adds : AddsOnlyUnions action) (declared : TypeId) :
    AddsOnlyUnions (withinModel expansion path declared hint action) := by
  unfold withinModel
  refine .bind addsOnlyUnions_catalog fun catalog => ?_
  cases catalog.namedModel? declared with
  | none => exact adds
  | some definition =>
    refine .bind (.modifyGet fun _ => rfl) fun admission => ?_
    cases admission with
    | entered => exact adds.thenAlways fun _ => rfl
    | cycle =>
      cases hint.describesBelow with
      | true => exact adds
      | false => exact .throw _
    | tooDeep | tooMany => exact .bind .get fun _ => .throw _

theorem addsOnlyUnions_members
    (adds : ∀ path declared hint nullable, AddsOnlyUnions (below path declared hint nullable))
    (properties : List Property) :
    AddsOnlyUnions (members expansion below path hint properties) := by
  induction properties with
  | nil => exact .pure _
  | cons p rest ih =>
    unfold members
    exact .bind (addsOnlyUnions_decide _ _) fun _ => .bind (adds _ _ _ _) fun _ =>
      .bind ih fun _ => .pure _

theorem addsOnlyUnions_group
    (adds : ∀ path declared hint nullable, AddsOnlyUnions (below path declared hint nullable))
    (properties : List Property) :
    AddsOnlyUnions (group expansion below path hint properties) := by
  unfold group
  cases strangeField? properties hint with
  | some field => exact .throw _
  | none => exact .bind (addsOnlyUnions_members adds properties) fun _ => .pure _

theorem addsOnlyUnions_array
    (adds : ∀ path declared hint nullable, AddsOnlyUnions (below path declared hint nullable))
    (element : TypeId) : AddsOnlyUnions (array expansion below path hint element) := by
  unfold array
  exact .bind (addsOnlyUnions_decide _ _) fun _ => .bind (adds _ _ _ _) fun _ => .pure _

theorem addsOnlyUnions_nodeStep
    (adds : ∀ path declared hint nullable, AddsOnlyUnions (below path declared hint nullable))
    (path : FieldPath) (declared : TypeId) (hint : Hint) (nullable : Bool) :
    AddsOnlyUnions (nodeStep expansion below path declared hint nullable) := by
  unfold nodeStep
  refine addsOnlyUnions_withinLevel (.bind
    (.intern (Catalog.addsUnions_withoutNullish expansion.models declared)) fun stripped =>
      .bind addsOnlyUnions_catalog fun catalog => ?_)
  cases catalog.plan stripped hint path with
  | error error => exact .throw _
  | ok plan =>
    cases plan with
    | control =>
      exact .bind (.intern (Catalog.addsUnions_controlType expansion.models declared nullable))
        fun _ => .pure _
    | group properties =>
      exact addsOnlyUnions_withinModel (addsOnlyUnions_group adds properties) declared
    | array element => exact addsOnlyUnions_array adds element

/-- Making a node adds nothing but unions, over any number of levels. -/
theorem addsOnlyUnions_node : ∀ (levels : Nat) (path : FieldPath) (declared : TypeId) (hint : Hint)
    (nullable : Bool), AddsOnlyUnions (node expansion levels path declared hint nullable)
  | 0 => addsOnlyUnions_nodeStep fun _ _ _ _ => .throw _
  | levels + 1 => addsOnlyUnions_nodeStep (addsOnlyUnions_node levels)

end Expansion

namespace DerivedForm

/-- A derivation adds nothing to the table but unions. -/
theorem addsUnions_derive (models : Definitions) (mode : Mode) (hint : Hint) (model : TypeId)
    (types : TypeTable) : types.AddsUnions (derive models mode hint model types).2 := by
  show types.AddsUnions (expand models mode hint model types).2.types
  unfold expand
  cases checkRoot ⟨types, models⟩ hint model with
  | error error => exact .refl types
  | ok _ => exact Expansion.addsOnlyUnions_node _ _ _ _ _ (.start types)

end DerivedForm

end ModelForms
