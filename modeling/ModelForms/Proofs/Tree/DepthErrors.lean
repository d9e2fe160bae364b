import ModelForms.Proofs.Tree.Refusals

/-!
# Errors about depth

An expansion that is stopped says that a position is too deep, with the bound on the nesting of
nodes.  Two things stop it: the counter of levels, and the guard's count of attempts over a whole
derivation.  The second has nothing to do with the position.  It is told in the same words.

So the steps to the position that the error names are as many as the bound, or they are fewer and
the attempts are used up (`DerivedForm.tooDeep_of_derive`).

`Stands` is what holds of the state while nothing is exceeded: the counter stands at the number of
steps to the position, and no more models are entered than there are steps.  So the bound of the
guard on entered models is never the one that is hit.  Each part of an expansion keeps that or fails
with an error that tells as much (`Bounded`), and there is one lemma for each part.

The last section has models each of which has the one before it twice.  No node of such a form is
deep, but the groups are soon more than the attempts, and then the form is refused for its depth at
a position that is not deep either (`Doubles.exists_tooDeep`).
-/

namespace ModelForms

namespace Expansion

/-- The state of an expansion at some level, with some models entered and nothing exceeded. -/
structure Stands (level entered : Nat) (state : ExpansionState) : Prop where
  level : state.depth.level = level
  maxLevel : state.depth.maxLevel = Limits.modelDepth
  entered : state.guard.keys.length = entered
  maxDepth : state.guard.maxDepth = Limits.modelDepth
  maxAttempts : state.guard.maxAttempts = Limits.expansionSteps
  attempts : state.guard.attempts ≤ Limits.expansionSteps

/-- What is known of an error about depth: the position is as deep as the bound says, or it is less
deep and the attempts are used up. -/
def Tells (error : DerivationError) (after : ExpansionState) : Prop :=
  ∀ path limit, error = .tooDeep path limit → limit = Limits.modelDepth
    ∧ (path.steps.length = Limits.modelDepth ∧ after.guard.attempts ≤ Limits.expansionSteps
      ∨ path.steps.length < Limits.modelDepth
        ∧ after.guard.attempts = Limits.expansionSteps + 1)

/-- A part of an expansion at a level, with some models entered, leaves nothing exceeded, or its
error tells what is. -/
def Bounded {α : Type} (level entered : Nat) (action : Expanding α) : Prop :=
  ∀ state, Stands level entered state →
    Ends action state (fun _ after => Stands level entered after) Tells

section

variable {α β : Type} {level entered : Nat} {action : Expanding α}

theorem Bounded.pure (result : α) : Bounded level entered (pure result) :=
  fun _ stands => ends_pure stands

theorem Bounded.throw {error : DerivationError}
    (other : ∀ path limit, error ≠ .tooDeep path limit) :
    Bounded level entered (throw error : Expanding α) :=
  fun _ _ => ends_throw fun path limit same => absurd same (other path limit)

theorem Bounded.bind {next : α → Expanding β} (first : Bounded level entered action)
    (rest : ∀ result, Bounded level entered (next result)) :
    Bounded level entered (action >>= next) :=
  fun state stands => (first state stands).bind fun result middle stands' =>
    rest result middle stands'

theorem Bounded.intern (interning : Interning α) : Bounded level entered (intern interning) :=
  fun _ ⟨level, maxLevel, entered, maxDepth, maxAttempts, attempts⟩ =>
    ⟨level, maxLevel, entered, maxDepth, maxAttempts, attempts⟩

variable {expansion : Expansion}

theorem Bounded.catalog : Bounded level entered expansion.catalog := fun _ stands => stands

theorem Bounded.decide (type : TypeId) (optional : Bool) :
    Bounded level entered (expansion.decide type optional) :=
  .bind .catalog fun _ => .pure _

/-- A change that is made in either case. -/
theorem ends_thenAlways {state : ExpansionState} {change : ExpansionState → ExpansionState}
    {good good' : α → ExpansionState → Prop} {bad bad' : DerivationError → ExpansionState → Prop}
    (h : Ends action state good bad) (succeeds : ∀ result after, good result after →
      good' result (change after))
    (fails : ∀ error after, bad error after → bad' error (change after)) :
    Ends (thenAlways action change) state good' bad' := by
  unfold Ends at h ⊢
  rw [show (thenAlways action change).run.run state =
    ((action.run.run state).1, change (action.run.run state).2) from rfl]
  cases run : action.run.run state with
  | mk outcome middle =>
    rw [run] at h
    cases outcome with
    | ok result => exact succeeds result middle h
    | error error => exact fails error middle h

theorem ends_catalog_bind_iff {next : Catalog → Expanding β} {state : ExpansionState}
    {good : β → ExpansionState → Prop} {bad : DerivationError → ExpansionState → Prop} :
    Ends (expansion.catalog >>= next) state good bad
      ↔ Ends (next (expansion.upon state.types)) state good bad :=
  Iff.rfl

/-- What follows on entering a model starts with the guard that this leaves. -/
theorem ends_entering_bind {next : Admission → Expanding β} {definition : ModelId}
    {state : ExpansionState} {good : β → ExpansionState → Prop}
    {bad : DerivationError → ExpansionState → Prop}
    (h : Ends (next (state.guard.enter definition).1)
      (state.withGuard (state.guard.enter definition).2) good bad) :
    Ends (modifyGet (fun state : ExpansionState =>
      ((state.guard.enter definition).1, { state with guard := (state.guard.enter definition).2 }))
      >>= next) state good bad :=
  h

end

/-! ## Levels and models -/

section

variable {path : FieldPath} {entered : Nat} {action : Expanding TreeNode} {expansion : Expansion}

/-- A node is made one level further in, unless its position is as deep as a node may be. -/
theorem bounded_withinLevel (le : path.steps.length ≤ Limits.modelDepth)
    (inside : path.steps.length < Limits.modelDepth →
      Bounded (path.steps.length + 1) entered action) :
    Bounded path.steps.length entered (withinLevel path action) := by
  intro state stands
  unfold withinLevel
  show Ends (if state.depth.enter.1 then _ else _ : Expanding TreeNode)
    { state with depth := state.depth.enter.2 } _ _
  rcases Nat.lt_or_ge path.steps.length Limits.modelDepth with lt | ge
  · have allow : state.depth.enter
        = (true, { state.depth with level := state.depth.level + 1 }) := by
      simp [Depth.enter, stands.level, stands.maxLevel, lt]
    rw [allow]
    have deeper : Stands (path.steps.length + 1) entered state.deeper :=
      { stands with level := congrArg (· + 1) stands.level }
    exact ends_thenAlways (inside lt _ deeper)
      (fun _ _ after => { after with level := congrArg (· - 1) after.level })
      (fun _ _ tells => tells)
  · have deny : state.depth.enter = (false, { state.depth with exceeded := true }) := by
      simp [Depth.enter, stands.level, stands.maxLevel, ge]
    rw [deny]
    show Tells (.tooDeep path state.depth.maxLevel) _
    rintro _ _ ⟨⟩
    exact ⟨stands.maxLevel, Or.inl ⟨Nat.le_antisymm le ge, stands.attempts⟩⟩

/-- Fewer models are entered than may be, so what a model is refused for is a cycle or the number of
attempts. -/
theorem bounded_withinModel (lt : path.steps.length < Limits.modelDepth)
    (few : entered ≤ path.steps.length)
    (inside : ∀ now ≤ path.steps.length + 1, Bounded (path.steps.length + 1) now action)
    (declared : TypeId) (hint : Hint) :
    Bounded (path.steps.length + 1) entered
      (expansion.withinModel path declared hint action) := by
  intro state stands
  unfold withinModel
  rw [ends_catalog_bind_iff]
  cases (expansion.upon state.types).namedModel? declared with
  | none => exact inside entered (by omega) state stands
  | some definition =>
    refine ends_entering_bind ?_
    have counted : state.guard.maxAttempts < Guard.maxCount := by
      rw [stands.maxAttempts]
      decide
    have room : state.guard.attempts ≤ state.guard.maxAttempts := by
      rw [stands.maxAttempts]
      exact stands.attempts
    have shallow : ¬ state.guard.maxDepth ≤ state.guard.depth := by
      rw [stands.maxDepth, Guard.depth, stands.entered]
      omega
    rw [Guard.enter_eq counted room, if_neg shallow]
    by_cases used : state.guard.attempts = state.guard.maxAttempts
    · rw [if_pos used]
      show Tells (.tooDeep path state.guard.maxDepth) _
      rintro _ _ ⟨⟩
      exact ⟨stands.maxDepth, Or.inr ⟨lt, congrArg (· + 1) (used.trans stands.maxAttempts)⟩⟩
    · have more : state.guard.attempts + 1 ≤ Limits.expansionSteps := by
        rw [← stands.maxAttempts]
        omega
      rw [if_neg used]
      by_cases again : state.guard.isEntered definition = true
      · rw [if_pos again]
        cases hint.describesBelow with
        | true => exact inside entered (by omega) _ { stands with attempts := more }
        | false => exact ends_throw fun _ _ same => by cases same
      · rw [if_neg again]
        have now : Stands (path.steps.length + 1) (entered + 1) (state.withGuard
            { state.guard.attempted with keys := definition :: state.guard.keys }) :=
          { stands with entered := congrArg (· + 1) stands.entered, attempts := more }
        exact ends_thenAlways (inside (entered + 1) (by omega) _ now)
          (fun _ _ after => { after with entered := by simp [Guard.leave, after.entered] })
          (fun _ _ tells => tells)

end

/-! ## Nodes -/

/-- Nodes at some level are made with nothing exceeded. -/
def BoundedBelow (level entered : Nat) (below : Maker) : Prop :=
  ∀ (path : FieldPath) (declared : TypeId) (hint : Hint) (nullable : Bool),
    path.steps.length = level → Bounded level entered (below path declared hint nullable)

section

variable {expansion : Expansion} {below : Maker} {path : FieldPath} {hint : Hint} {entered : Nat}

theorem length_push (path : FieldPath) (step : PathStep) :
    (path.push step).steps.length = path.steps.length + 1 := by
  simp [FieldPath.push]

theorem bounded_members (each : BoundedBelow (path.steps.length + 1) entered below)
    (properties : List Property) :
    Bounded (path.steps.length + 1) entered
      (expansion.members below path hint properties) := by
  induction properties with
  | nil => exact .pure _
  | cons p rest ih =>
    unfold members
    exact .bind (.decide _ _) fun _ => .bind (each _ _ _ _ (length_push path _)) fun _ =>
      .bind ih fun _ => .pure _

theorem bounded_group (each : BoundedBelow (path.steps.length + 1) entered below)
    (properties : List Property) :
    Bounded (path.steps.length + 1) entered (expansion.group below path hint properties) := by
  unfold group
  cases strangeField? properties hint with
  | some field => exact .throw fun _ _ => nofun
  | none => exact .bind (bounded_members each properties) fun _ => .pure _

theorem bounded_array (each : BoundedBelow (path.steps.length + 1) entered below)
    (element : TypeId) :
    Bounded (path.steps.length + 1) entered (expansion.array below path hint element) := by
  unfold array
  exact .bind (.decide _ _) fun _ => .bind (each _ _ _ _ (length_push path _)) fun _ => .pure _

/-- What is planned for a position says nothing about depth. -/
theorem plan_ne_tooDeep {catalog : Catalog} {stripped : TypeId} {place : FieldPath} {limit : Nat} :
    catalog.plan stripped hint path ≠ .error (.tooDeep place limit) := by
  unfold Catalog.plan
  repeat' split
  all_goals simp

theorem bounded_nodeStep (le : path.steps.length ≤ Limits.modelDepth)
    (few : entered ≤ path.steps.length)
    (each : path.steps.length < Limits.modelDepth → ∀ now ≤ path.steps.length + 1,
      BoundedBelow (path.steps.length + 1) now below) (declared : TypeId) (nullable : Bool) :
    Bounded path.steps.length entered (expansion.nodeStep below path declared hint nullable) := by
  unfold nodeStep
  refine bounded_withinLevel le fun lt => .bind (.intern _) fun stripped =>
    .bind .catalog fun catalog => ?_
  cases planned : catalog.plan stripped hint path with
  | error error => exact .throw fun _ _ same => plan_ne_tooDeep (same ▸ planned)
  | ok plan =>
    cases plan with
    | control => exact .bind (.intern _) fun _ => .pure _
    | group properties =>
      exact bounded_withinModel lt few (fun now le => bounded_group (each lt now le) properties)
        declared hint
    | array element => exact bounded_array (each lt entered (by omega)) element

/-- The recursion has as many levels left as the counter, so it is the counter that stops it. -/
theorem bounded_node : ∀ (levels : Nat) (path : FieldPath) (declared : TypeId) (hint : Hint)
    (nullable : Bool) (entered : Nat), path.steps.length + levels = Limits.modelDepth →
      entered ≤ path.steps.length →
      Bounded path.steps.length entered (expansion.node levels path declared hint nullable)
  | 0, path, _, _, _, _, left, few =>
    bounded_nodeStep (Nat.le_of_eq left) few (fun lt => by omega) _ _
  | levels + 1, path, _, _, _, _, left, few =>
    bounded_nodeStep (by omega) few (fun lt now le inner _ _ _ same => by
      have bounded := bounded_node levels inner
      rw [same] at bounded
      exact bounded _ _ _ now (by omega) le) _ _

end

end Expansion

namespace DerivedForm

open Expansion

variable {models : Definitions} {mode : Mode} {hint : Hint} {model : TypeId}
  {types after : TypeTable} {path : FieldPath} {limit : Nat}

theorem stands_start (types : TypeTable) : Stands 0 0 (.start types) :=
  ⟨rfl, rfl, rfl, rfl, rfl, Nat.zero_le _⟩

theorem checkRoot_ne_tooDeep {catalog : Catalog} :
    checkRoot catalog hint model ≠ .error (.tooDeep path limit) := by
  unfold checkRoot
  repeat' split
  all_goals simp

/-- An expansion from the root leaves nothing exceeded, or its error about depth tells what is. -/
theorem tells_of_expand {error : DerivationError} {last : ExpansionState}
    (h : expand models mode hint model types = (.error error, last)) : Tells error last := by
  unfold expand at h
  cases root : checkRoot ⟨types, models⟩ hint model with
  | error refused =>
    rw [root] at h
    cases h
    exact fun place limit same => absurd (same ▸ root) checkRoot_ne_tooDeep
  | ok _ =>
    rw [root] at h
    exact (bounded_node WalkKind.expansion.maxDepth .root model hint false 0 (Nat.zero_add _)
      (Nat.le_refl 0) _ (stands_start types)).of_fails h

theorem tells_of_derive {error : DerivationError}
    (h : derive models mode hint model types = (.error error, after)) :
    Tells error (expand models mode hint model types).2 := by
  unfold derive at h
  cases outcome : expand models mode hint model types with
  | mk result last =>
    rw [outcome] at h
    cases result with
    | ok root => cases h
    | error error =>
      cases h
      exact tells_of_expand outcome

/-- An error about depth names the bound on the nesting of nodes and a position that the expansion
gets to.  There are as many steps to the position as the bound says, or there are fewer and all
attempts of the guard are used up. -/
theorem tooDeep_of_derive
    (h : derive models mode hint model types = (.error (.tooDeep path limit), after)) :
    limit = Limits.modelDepth
    ∧ (path.steps.length = limit
        ∧ (expand models mode hint model types).2.guard.attempts ≤ Limits.expansionSteps
      ∨ path.steps.length < limit
        ∧ (expand models mode hint model types).2.guard.attempts = Limits.expansionSteps + 1)
    ∧ (Catalog.WellFormed ⟨types, models⟩ → ∃ declared here,
        Catalog.Visits ⟨types, models⟩ model hint path.steps declared here) := by
  obtain ⟨rfl, deep⟩ := tells_of_derive h path limit rfl
  refine ⟨rfl, deep, fun wf => ?_⟩
  rcases refuses_of_derive wf h with refused | ⟨_, refused⟩
  · exact absurd refused checkRoot_ne_tooDeep
  · cases refused with
    | tooDeep visits => exact ⟨_, _, visits⟩

/-! ## A deep form -/

/-- The types of two models: `Nested` is an array of itself, and `Form` has one. -/
def nestedArrays : Catalog where
  types.entries := [.reference ⟨1⟩, .array ⟨100⟩, .object [⟨"items", ⟨100⟩, false⟩]]
  types.names := .builtin
  models.entries := [⟨"Nested", some ⟨101⟩⟩, ⟨"Form", some ⟨102⟩⟩]

theorem derive_nestedArrays :
    ∃ after, derive nestedArrays.models ⟨.never, .never⟩ .unspecified ⟨102⟩ nestedArrays.types
      = (.error (.tooDeep ⟨.field "items" :: List.replicate 63 .element⟩ 64), after) := by
  have error : (match (derive nestedArrays.models ⟨.never, .never⟩ .unspecified ⟨102⟩
      nestedArrays.types).1 with
    | .error error => some error
    | .ok _ => none) = some (.tooDeep ⟨.field "items" :: List.replicate 63 .element⟩ 64) := by
    decide +kernel
  cases run : derive nestedArrays.models ⟨.never, .never⟩ .unspecified ⟨102⟩
      nestedArrays.types with
  | mk outcome after =>
    rw [run] at error
    cases outcome with
    | ok tree => cases error
    | error thrown =>
      cases error
      exact ⟨after, rfl⟩

/-- Arrays of arrays without end are refused where there are as many steps as the bound says. -/
theorem tooDeep_of_derive_nestedArrays :
    ∃ path after, derive nestedArrays.models ⟨.never, .never⟩ .unspecified ⟨102⟩
        nestedArrays.types = (.error (.tooDeep path 64), after)
      ∧ path.steps.length = 64
      ∧ (expand nestedArrays.models ⟨.never, .never⟩ .unspecified ⟨102⟩
        nestedArrays.types).2.guard.attempts ≤ 100000 := by
  obtain ⟨after, refused⟩ := derive_nestedArrays
  obtain ⟨_, ⟨deep, attempts⟩ | ⟨shallow, _⟩, _⟩ := tooDeep_of_derive refused
  · exact ⟨_, after, refused, deep, attempts⟩
  · exact absurd shallow (by decide)

/-! ## A wide form -/

/-- The properties of a model that has the one before it twice. -/
def halves : Nat → List Property
  | 0 => []
  | k + 1 => [⟨"l", ⟨100 + k⟩, false⟩, ⟨"r", ⟨100 + k⟩, false⟩]

/-- The first references of a catalog are to objects, each of which has the one before it twice. -/
structure Doubles (catalog : Catalog) (count : Nat) : Prop where
  strip : ∀ k < count, catalog.strip ⟨100 + k⟩ = .single ⟨100 + k⟩
  classify : ∀ k < count, catalog.classify ⟨100 + k⟩ = .object (halves k)
  named : ∀ k < count, (catalog.namedModel? ⟨100 + k⟩).isSome = true

/-- The group over a model that has the one before it twice. -/
def doubledNode : Nat → TreeNode
  | 0 => .group []
  | k + 1 => .group [("l", (false, doubledNode k)), ("r", (false, doubledNode k))]
termination_by structural k => k

/-- The number of groups in it: twice as many as in the one before, and one more. -/
def doubledGroups : Nat → Nat
  | 0 => 1
  | k + 1 => 2 * doubledGroups k + 1
termination_by structural k => k

section

variable {catalog : Catalog} {count : Nat}

theorem Doubles.plan (doubles : Doubles catalog count) {k : Nat} (lt : k < count) :
    NodePlan.ofClass? (catalog.shape ⟨100 + k⟩) Hint.unspecified.kind?
      = some (.group (halves k)) := by
  rw [Catalog.shape, doubles.strip k lt]
  show NodePlan.ofClass? (catalog.classify ⟨100 + k⟩) _ = _
  rw [doubles.classify k lt]
  rfl

/-- A group over a model stands for the model, whatever its members are. -/
theorem Doubles.expands_of_members {types : TypeTable} {models : Definitions}
    (doubles : Doubles ⟨types, models⟩ count) {k : Nat} (lt : k < count)
    {members : List (String × (Bool × TreeNode))} {named : Nat}
    (below : ExpandsMembers ⟨models, ⟨.never, .never⟩⟩ types .unspecified (halves k) members named
      types) :
    Expands ⟨models, ⟨.never, .never⟩⟩ types ⟨100 + k⟩ .unspecified false
      (.group (Entries.collect members)) (1 + named) types := by
  have strips : Interning.withoutNullish models ⟨100 + k⟩ types = (⟨100 + k⟩, types) := by
    rw [Catalog.withoutNullish_eq, doubles.strip k lt]
  have plan : NodePlan.ofClass? (Catalog.classify ⟨types, models⟩ ⟨100 + k⟩)
      Hint.unspecified.kind? = some (.group (halves k)) := by
    rw [doubles.classify k lt]
    rfl
  have one : namedCount ⟨types, models⟩ ⟨100 + k⟩ = 1 := if_pos (doubles.named k lt)
  rw [← one]
  exact .group strips plan rfl below

theorem Doubles.expands {types : TypeTable} {models : Definitions}
    (doubles : Doubles ⟨types, models⟩ count) : (k : Nat) → k < count →
    Expands ⟨models, ⟨.never, .never⟩⟩ types ⟨100 + k⟩ .unspecified false (doubledNode k)
      (doubledGroups k) types
  | 0, lt => doubles.expands_of_members lt .nil
  | k + 1, lt => by
    have half := doubles.expands k (by omega)
    have both := doubles.expands_of_members lt (.cons rfl half (.cons rfl half .nil))
    have total : 1 + (doubledGroups k + (doubledGroups k + 0)) = doubledGroups (k + 1) := by
      show _ = 2 * doubledGroups k + 1
      omega
    rw [total] at both
    exact both

/-- On the way down from a model there are at most as many models as before it. -/
theorem Doubles.of_visits (doubles : Doubles catalog count) {top : Nat} (lt : top < count)
    {steps : List PathStep} {declared : TypeId} {here : Hint}
    (visits : catalog.Visits ⟨100 + top⟩ .unspecified steps declared here) :
    here = .unspecified ∧ ∃ k, declared = ⟨100 + k⟩ ∧ k + steps.length = top := by
  induction visits with
  | here => exact ⟨rfl, top, rfl, rfl⟩
  | field _ group mem ih =>
    obtain ⟨rfl, k, rfl, length⟩ := ih
    rw [doubles.plan (by omega)] at group
    cases group
    cases k with
    | zero => cases mem
    | succ k =>
      refine ⟨rfl, k, ?_, by simp; omega⟩
      rcases List.mem_cons.1 mem with rfl | mem
      · rfl
      · cases List.mem_singleton.1 mem
        rfl
  | element _ array ih =>
    obtain ⟨rfl, k, rfl, _⟩ := ih
    rw [doubles.plan (by omega)] at array
    cases array

/-- Where there are more groups than the guard allows attempts, the form over a model is refused for
its depth, whatever the position is at which the attempts are used up. -/
theorem Doubles.exists_tooDeep {types : TypeTable} {models : Definitions}
    (doubles : Doubles ⟨types, models⟩ count) (wf : Catalog.WellFormed ⟨types, models⟩)
    (unbroken : Catalog.Unbroken ⟨types, models⟩) {top : Nat} (lt : top < count)
    (many : Limits.expansionSteps < doubledGroups top) : ∃ path limit after,
    derive models ⟨.never, .never⟩ .unspecified ⟨100 + top⟩ types
      = (.error (.tooDeep path limit), after) ∧ path.steps.length ≤ top := by
  have expands := doubles.expands top lt
  cases run : derive models ⟨.never, .never⟩ .unspecified ⟨100 + top⟩ types with
  | mk outcome after =>
    cases outcome with
    | ok tree =>
      obtain ⟨_, _, named, expands', _, few⟩ := expands_of_derive run
      obtain ⟨_, rfl, _⟩ := expands'.unique expands
      omega
    | error error =>
      rcases refuses_of_derive wf run with refused | ⟨known, refused⟩
      · have root : checkRoot ⟨types, models⟩ .unspecified ⟨100 + top⟩ = .ok () :=
          checkRoot_eq_ok_iff.2 ⟨nofun, nofun, _, doubles.classify top lt⟩
        cases root.symm.trans refused
      · cases refused with
        | unresolved _ shape => exact absurd shape (unbroken.shape_ne_unresolved _ _)
        | unplanned visits asked =>
          obtain ⟨rfl, _⟩ := doubles.of_visits lt visits
          cases asked
        | strange visits _ strange =>
          obtain ⟨rfl, _⟩ := doubles.of_visits lt visits
          cases strange
        | cyclic visits group named around undescribed =>
          have yields := (expands.settles wf known).holds _ (.refl _)
          exact absurd yields (visits.not_yields wf group named around undescribed)
        | tooDeep visits =>
          obtain ⟨_, k, _, length⟩ := doubles.of_visits lt visits
          exact ⟨_, _, _, rfl, by omega⟩

end

/-- The types of seventeen models.  The first is empty, and each of the others has the one before it
twice. -/
def doubled : Catalog where
  types.entries := (List.range 17).map (fun k => .reference ⟨k + 1⟩)
    ++ (List.range 17).map fun k => .object (halves k)
  types.names := .builtin
  models.entries := (List.range 17).map fun k => ⟨"M" ++ toString k, some ⟨117 + k⟩⟩

theorem doubles_doubled : Doubles doubled 17 := ⟨by decide, by decide, by decide⟩

/-- An error about depth may name a position that is not deep. -/
theorem not_forall_length_eq_of_tooDeep :
    ¬ ∀ (models : Definitions) (mode : Mode) (hint : Hint) (model : TypeId)
      (types after : TypeTable) (path : FieldPath) (limit : Nat),
      Catalog.WellFormed ⟨types, models⟩ →
      derive models mode hint model types = (.error (.tooDeep path limit), after) →
      path.steps.length = limit := by
  intro always
  have wf : doubled.WellFormed := by decide
  obtain ⟨path, limit, after, refused, shallow⟩ :=
    doubles_doubled.exists_tooDeep wf (by decide) (by decide : 16 < 17) (by decide)
  have deep := always _ _ _ _ _ _ _ _ wf refused
  obtain ⟨rfl, _⟩ := tells_of_derive refused path limit rfl
  have : path.steps.length = 64 := deep
  omega

end DerivedForm

end ModelForms
