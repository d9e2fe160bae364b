import ModelForms.Proofs.Tree.Guarded

/-!
# Expansions that fail

`Fails` says that a part of an expansion fails with an error, as `Gives` says that it succeeds.  The
lemmas take a failure apart along the way an expansion is written, down to the first thing that goes
wrong; what succeeds before it is told by `Gives`.
-/

namespace ModelForms

namespace Expansion

variable {α β : Type} {state after : ExpansionState} {error : DerivationError}

/-- A part of an expansion fails with an error. -/
def Fails (action : Expanding α) (state : ExpansionState) (error : DerivationError) : Prop :=
  (action.run.run state).1 = .error error

theorem not_fails_pure {a : α} : ¬ Fails (pure a) state error := by
  show (Except.ok a : Except DerivationError α) ≠ .error error
  simp

theorem fails_throw_iff {thrown : DerivationError} :
    Fails (throw thrown : Expanding α) state error ↔ error = thrown := by
  show (Except.error thrown : Except DerivationError α) = .error error ↔ _
  rw [Except.error.injEq, eq_comm]

theorem fails_bind_iff {action : Expanding α} {next : α → Expanding β} :
    Fails (action >>= next) state error
      ↔ Fails action state error ∨ ∃ a middle, Gives action state a middle
        ∧ Fails (next a) middle error := by
  unfold Fails Gives
  rw [run_bind]
  cases action.run.run state with
  | mk outcome middle =>
    cases outcome with
    | ok a =>
      constructor
      · exact fun h => Or.inr ⟨a, middle, rfl, h⟩
      · rintro (h | ⟨_, _, h, h'⟩)
        · cases h
        · cases h
          exact h'
    | error thrown =>
      constructor
      · intro h
        cases h
        exact Or.inl rfl
      · rintro (h | ⟨_, _, h, _⟩)
        · cases h
          rfl
        · cases h

theorem fails_modifyGet_bind_iff {f : ExpansionState → α × ExpansionState}
    {next : α → Expanding β} :
    Fails (modifyGet f >>= next) state error ↔ Fails (next (f state).1) (f state).2 error :=
  Iff.rfl

theorem fails_intern_bind_iff {action : Interning α} {next : α → Expanding β} :
    Fails (intern action >>= next) state error
      ↔ Fails (next (action state.types).1) (state.withTypes (action state.types).2) error :=
  Iff.rfl

theorem fails_catalog_bind_iff {expansion : Expansion} {next : Catalog → Expanding β} :
    Fails (expansion.catalog >>= next) state error
      ↔ Fails (next (expansion.upon state.types)) state error :=
  Iff.rfl

theorem not_fails_decide {expansion : Expansion} {type : TypeId} {optional : Bool} :
    ¬ Fails (expansion.decide type optional) state error := by
  unfold Expansion.decide
  rw [fails_catalog_bind_iff]
  exact not_fails_pure

theorem fails_thenAlways_iff {action : Expanding α} {change : ExpansionState → ExpansionState} :
    Fails (thenAlways action change) state error ↔ Fails action state error :=
  Iff.rfl

theorem fails_withinLevel_iff {path : FieldPath} {action : Expanding TreeNode} :
    Fails (withinLevel path action) state error
      ↔ (state.depth.level < state.depth.maxLevel ∧ Fails action state.deeper error)
        ∨ (state.depth.maxLevel ≤ state.depth.level
          ∧ error = .tooDeep path state.depth.maxLevel) := by
  unfold withinLevel
  rw [fails_modifyGet_bind_iff]
  by_cases room : state.depth.maxLevel ≤ state.depth.level
  · have deny : state.depth.enter = (false, { state.depth with exceeded := true }) := by
      simp [Depth.enter, room]
    rw [deny, or_iff_right fun h => Nat.not_lt.2 room h.1, and_iff_right room]
    exact fails_throw_iff
  · have allow : state.depth.enter
        = (true, { state.depth with level := state.depth.level + 1 }) := by
      simp [Depth.enter, room]
    rw [allow, or_iff_left fun h => room h.1, and_iff_right (Nat.not_le.1 room)]
    exact fails_thenAlways_iff

/-- Beside what goes wrong in the group itself, its model cannot be entered, or it is entered
already and the hint does not describe what lies below. -/
theorem fails_withinModel_iff {expansion : Expansion} {path : FieldPath} {declared : TypeId}
    {hint : Hint} {action : Expanding TreeNode} :
    Fails (expansion.withinModel path declared hint action) state error
      ↔ match (expansion.upon state.types).namedModel? declared with
        | none => Fails action state error
        | some definition =>
            match state.guard.enter definition with
            | (.entered, guard) => Fails action (state.withGuard guard) error
            | (.cycle, guard) =>
                (hint.describesBelow = true ∧ Fails action (state.withGuard guard) error)
                  ∨ (hint.describesBelow = false
                    ∧ error = .cyclicModel (expansion.models.describe definition) path)
            | (_, guard) => error = .tooDeep path guard.maxDepth := by
  unfold withinModel
  rw [fails_catalog_bind_iff]
  cases (expansion.upon state.types).namedModel? declared with
  | none => exact Iff.rfl
  | some definition =>
    simp only [fails_modifyGet_bind_iff]
    cases state.guard.enter definition with
    | mk admission guard =>
      cases admission with
      | entered => exact fails_thenAlways_iff
      | cycle =>
        cases hint.describesBelow with
        | true =>
          show Fails action (state.withGuard guard) error ↔ _ ∧ _ ∨ _ ∧ _
          simp
        | false =>
          show Fails (throw _) (state.withGuard guard) error ↔ _ ∧ _ ∨ _ ∧ _
          simp [fails_throw_iff]
      | tooDeep | tooMany => exact fails_throw_iff

/-- A node fails for want of a level, because nothing is planned for it, or while what is planned is
made. -/
theorem fails_nodeStep_iff {expansion : Expansion} {below : Maker} {path : FieldPath}
    {declared stripped : TypeId} {hint : Hint} {nullable : Bool} {types : TypeTable}
    (strips : Interning.withoutNullish expansion.models declared state.types = (stripped, types)) :
    Fails (expansion.nodeStep below path declared hint nullable) state error
      ↔ (state.depth.level < state.depth.maxLevel
          ∧ match (expansion.upon types).plan stripped hint path with
            | .error unplanned => error = unplanned
            | .ok plan => Fails (expansion.make below path declared hint nullable plan)
              (state.deeper.withTypes types) error)
        ∨ (state.depth.maxLevel ≤ state.depth.level
          ∧ error = .tooDeep path state.depth.maxLevel) := by
  have strips' : Interning.withoutNullish expansion.models declared state.deeper.types
      = (stripped, types) := strips
  have types' : (state.deeper.withTypes types).types = types := rfl
  unfold nodeStep
  simp only [fails_withinLevel_iff, fails_intern_bind_iff, fails_catalog_bind_iff, strips', types']
  refine or_congr_left (and_congr_right fun _ => ?_)
  cases (expansion.upon types).plan stripped hint path with
  | error => exact fails_throw_iff
  | ok plan =>
    cases plan with
    | control | group | array => exact Iff.rfl

theorem fails_members_cons_iff {expansion : Expansion} {below : Maker} {path : FieldPath}
    {hint : Hint} {p : Property} {rest : List Property} {decided : Decided}
    (decides : (expansion.upon state.types).decided expansion.mode p.type p.optional = decided) :
    Fails (expansion.members below path hint (p :: rest)) state error
      ↔ Fails (below (path.field p.name) p.type (hint.field p.name) decided.nullable) state error
        ∨ ∃ node middle,
          Gives (below (path.field p.name) p.type (hint.field p.name) decided.nullable) state node
            middle
          ∧ Fails (expansion.members below path hint rest) middle error := by
  have decides' {decided' : Decided} {middle : ExpansionState} :
      Gives (expansion.decide p.type p.optional) state decided' middle
        ↔ decided' = decided ∧ middle = state := by
    rw [gives_decide_iff, decides]
  rw [members]
  simp only [fails_bind_iff, not_fails_decide, not_fails_pure, decides', false_or, and_false,
    exists_false, or_false]
  constructor
  · rintro ⟨_, _, ⟨rfl, rfl⟩, h⟩
    exact h
  · intro h
    exact ⟨_, _, ⟨rfl, rfl⟩, h⟩

end Expansion

end ModelForms
