import ModelForms.Proofs.Entries
import ModelForms.Proofs.Runs
import ModelForms.Proofs.Tree.Rules
import ModelForms.Tree.Derive

/-!
# Expansions under a guard

An expansion that succeeds follows the rules, and it stays within the bounds of the guard and of the
counter.  `Gives` says that a part of an expansion succeeds, and the lemmas on it take an expansion
apart along the way it is written.

What an expansion does to the state is the same wherever it succeeds: the types are those that the
rules leave, as many attempts are counted as there are groups that stand for a model, and everything
else is as it was (`advance`).  `Fits` says that a state has room for a node, levels and attempts
alike.
-/

namespace ModelForms

/-! ## How high a tree is -/

namespace TreeNode

mutual

/-- The number of nodes on the longest chain from a node down. -/
def height : TreeNode → Nat
  | .control _ => 1
  | .group members => heightOfMembers members + 1
  | .array element => height element + 1
termination_by structural node => node

/-- The largest height among the members of a group. -/
def heightOfMembers : List (String × (Bool × TreeNode)) → Nat
  | [] => 0
  | (_, (_, node)) :: rest => max (height node) (heightOfMembers rest)
termination_by structural members => members

end

theorem heightOfMembers_le_iff {members : List (String × (Bool × TreeNode))} {n : Nat} :
    heightOfMembers members ≤ n ↔ ∀ m ∈ members, m.2.2.height ≤ n := by
  induction members with
  | nil => simp [heightOfMembers]
  | cons first rest ih =>
    obtain ⟨name, optional, node⟩ := first
    rw [heightOfMembers, Nat.max_le, List.forall_mem_cons, ih]

theorem heightOfMembers_collect_le (members : List (String × (Bool × TreeNode))) :
    heightOfMembers (Entries.collect members) ≤ heightOfMembers members :=
  heightOfMembers_le_iff.2 fun _ hm =>
    heightOfMembers_le_iff.1 (Nat.le_refl _) _ (Entries.mem_of_mem_collect hm)

end TreeNode

/-! ## Entering a guard -/

namespace Guard

variable {κ : Type} [DecidableEq κ] {key : κ} {guard : Guard κ}

/-- The guard after one more attempt. -/
def attempted (guard : Guard κ) : Guard κ := { guard with attempts := guard.attempts + 1 }

/-- What entering comes to while the counter of attempts does not overflow. -/
theorem enter_eq (counted : guard.maxAttempts < maxCount)
    (room : guard.attempts ≤ guard.maxAttempts) :
    guard.enter key =
      if guard.attempts = guard.maxAttempts then
        (.tooMany, { guard.attempted with exceeded := true })
      else if guard.maxDepth ≤ guard.depth then
        (.tooDeep, { guard.attempted with exceeded := true })
      else if guard.isEntered key then (.cycle, guard.attempted)
      else (.entered, { guard.attempted with keys := key :: guard.keys }) := by
  have hmin : min (guard.attempts + 1) maxCount = guard.attempts + 1 := by omega
  unfold enter
  simp only [hmin]
  by_cases full : guard.attempts = guard.maxAttempts
  · rw [if_pos full, if_pos (by omega)]
    rfl
  · rw [if_neg full, if_neg (by omega)]
    rfl

theorem enter_eq_entered (counted : guard.maxAttempts < maxCount)
    (room : guard.attempts ≤ guard.maxAttempts) {entered : Guard κ}
    (h : guard.enter key = (.entered, entered)) :
    guard.attempts < guard.maxAttempts
      ∧ entered = { guard.attempted with keys := key :: guard.keys } := by
  rw [enter_eq counted room] at h
  split at h
  · cases h
  · split at h
    · cases h
    · split at h
      · cases h
      · cases h
        exact ⟨by omega, rfl⟩

theorem enter_eq_cycle (counted : guard.maxAttempts < maxCount)
    (room : guard.attempts ≤ guard.maxAttempts) {entered : Guard κ}
    (h : guard.enter key = (.cycle, entered)) :
    guard.attempts < guard.maxAttempts ∧ entered = guard.attempted := by
  rw [enter_eq counted room] at h
  split at h
  · cases h
  · split at h
    · cases h
    · split at h
      · cases h
        exact ⟨by omega, rfl⟩
      · cases h

end Guard

/-! ## The state -/

namespace ExpansionState

/-- The state has not gone beyond its bounds, and attempts are counted as far as their bound. -/
structure Ready (state : ExpansionState) : Prop where
  level : state.depth.level ≤ state.depth.maxLevel
  attempts : state.guard.attempts ≤ state.guard.maxAttempts
  counted : state.guard.maxAttempts < Guard.maxCount

/-- A state has room for a node of some height with some groups that stand for a model. -/
structure Fits (state : ExpansionState) (height named : Nat) : Prop where
  levels : state.depth.level + height ≤ state.depth.maxLevel
  attempts : state.guard.attempts + named ≤ state.guard.maxAttempts

/-- The state after an expansion that leaves some types and counts some attempts. -/
def advance (state : ExpansionState) (types : TypeTable) (named : Nat) : ExpansionState :=
  { state with
    types := types
    guard := { state.guard with attempts := state.guard.attempts + named } }

/-- The state one level further in. -/
def deeper (state : ExpansionState) : ExpansionState :=
  { state with depth := { state.depth with level := state.depth.level + 1 } }

/-- The state with other types. -/
def withTypes (state : ExpansionState) (types : TypeTable) : ExpansionState :=
  { state with types := types }

/-- The state with another guard. -/
def withGuard (state : ExpansionState) (guard : Guard ModelId) : ExpansionState :=
  { state with guard := guard }

section

variable {state : ExpansionState} {types later : TypeTable} {height named others : Nat}

theorem withTypes_advance :
    (state.withTypes types).advance later named = state.advance later named :=
  rfl

theorem fits_withTypes_iff :
    (state.withTypes types).Fits height named ↔ state.Fits height named :=
  ⟨fun fits => ⟨fits.levels, fits.attempts⟩, fun fits => ⟨fits.levels, fits.attempts⟩⟩

theorem advance_advance :
    (state.advance types named).advance later others = state.advance later (named + others) := by
  simp only [advance, Nat.add_assoc]

theorem leave_advance_deeper :
    { state.deeper.advance types named with
        depth := (state.deeper.advance types named).depth.leave } = state.advance types named := by
  simp [advance, deeper, Depth.leave]

theorem Ready.withTypes (ready : state.Ready) (types : TypeTable) :
    (state.withTypes types).Ready :=
  ⟨ready.level, ready.attempts, ready.counted⟩

theorem Ready.advance (ready : state.Ready) (fits : state.Fits height named) :
    (state.advance types named).Ready :=
  ⟨ready.level, fits.attempts, ready.counted⟩

theorem Ready.fits_nothing (ready : state.Ready) : state.Fits 0 0 := ⟨ready.level, ready.attempts⟩

theorem Fits.more (fits : state.Fits height named) {other : Nat}
    (next : (state.advance types named).Fits other others) :
    state.Fits (max height other) (named + others) := by
  have levels := fits.levels
  have nextLevels : state.depth.level + other ≤ state.depth.maxLevel := next.levels
  have nextAttempts : state.guard.attempts + named + others ≤ state.guard.maxAttempts :=
    next.attempts
  exact ⟨by omega, by omega⟩

theorem fits_deeper_iff : state.deeper.Fits height named ↔ state.Fits (height + 1) named := by
  constructor
  · rintro ⟨levels, attempts⟩
    have : state.depth.level + 1 + height ≤ state.depth.maxLevel := levels
    exact ⟨by omega, attempts⟩
  · rintro ⟨levels, attempts⟩
    refine ⟨?_, attempts⟩
    show state.depth.level + 1 + height ≤ state.depth.maxLevel
    omega

theorem Fits.mono (fits : state.Fits height named) {other : Nat} (lower : other ≤ height)
    (fewer : others ≤ named) : state.Fits other others := by
  have levels := fits.levels
  have attempts := fits.attempts
  exact ⟨by omega, by omega⟩

end

end ExpansionState

namespace Expansion

variable {α β : Type} {state after : ExpansionState}

/-! ## Runs -/

/-- A part of an expansion succeeds with a result and a state. -/
def Gives (action : Expanding α) (state : ExpansionState) (result : α) (after : ExpansionState) :
    Prop :=
  action.run.run state = (.ok result, after)

theorem gives_pure_iff {a result : α} :
    Gives (pure a) state result after ↔ result = a ∧ after = state :=
  ModelForms.gives_pure_iff

theorem not_gives_throw {error : DerivationError} {result : α} :
    ¬ Gives (throw error) state result after :=
  ModelForms.not_gives_throw

theorem gives_bind_iff {action : Expanding α} {next : α → Expanding β} {result : β} :
    Gives (action >>= next) state result after
      ↔ ∃ a middle, Gives action state a middle ∧ Gives (next a) middle result after :=
  ModelForms.gives_bind_iff

theorem gives_modifyGet_bind_iff {f : ExpansionState → α × ExpansionState}
    {next : α → Expanding β} {result : β} :
    Gives (modifyGet f >>= next) state result after
      ↔ Gives (next (f state).1) (f state).2 result after :=
  Iff.rfl

theorem gives_intern_bind_iff {action : Interning α} {next : α → Expanding β} {result : β} :
    Gives (intern action >>= next) state result after
      ↔ Gives (next (action state.types).1) (state.withTypes (action state.types).2) result after :=
  Iff.rfl

theorem gives_catalog_bind_iff {expansion : Expansion} {next : Catalog → Expanding β}
    {result : β} :
    Gives (expansion.catalog >>= next) state result after
      ↔ Gives (next (expansion.upon state.types)) state result after :=
  Iff.rfl

theorem gives_decide_iff {expansion : Expansion} {type : TypeId} {optional : Bool}
    {result : Decided} :
    Gives (expansion.decide type optional) state result after
      ↔ result = (expansion.upon state.types).decided expansion.mode type optional
        ∧ after = state := by
  unfold Expansion.decide
  rw [gives_catalog_bind_iff, gives_pure_iff]
  exact Iff.rfl

/-- A change that is made whether an action fails or not. -/
theorem gives_thenAlways_iff {action : Expanding α} {change : ExpansionState → ExpansionState}
    {result : α} :
    Gives (thenAlways action change) state result after
      ↔ ∃ middle, Gives action state result middle ∧ after = change middle := by
  have hrun : (thenAlways action change).run.run state =
      ((action.run.run state).1, change (action.run.run state).2) := rfl
  unfold Gives
  rw [hrun]
  cases action.run.run state with
  | mk outcome middle =>
    constructor
    · intro h
      cases h
      exact ⟨middle, rfl, rfl⟩
    · rintro ⟨_, h, rfl⟩
      cases h
      rfl

/-- A node one level further in needs a level that is left. -/
theorem gives_withinLevel_iff {path : FieldPath} {action : Expanding TreeNode}
    {node : TreeNode} :
    Gives (withinLevel path action) state node after
      ↔ state.depth.level < state.depth.maxLevel ∧ ∃ middle, Gives action state.deeper node middle
        ∧ after = { middle with depth := middle.depth.leave } := by
  unfold withinLevel
  rw [gives_modifyGet_bind_iff]
  by_cases room : state.depth.maxLevel ≤ state.depth.level
  · have deny : state.depth.enter = (false, { state.depth with exceeded := true }) := by
      simp [Depth.enter, room]
    rw [deny]
    exact iff_of_false not_gives_throw fun h => Nat.not_lt.2 room h.1
  · have allow : state.depth.enter
        = (true, { state.depth with level := state.depth.level + 1 }) := by
      simp [Depth.enter, room]
    rw [allow, and_iff_right (Nat.not_le.1 room)]
    exact gives_thenAlways_iff

/-- A group is made with the model that its declared type names entered, if it names one.  It is
made all the same if the model is entered already and the hint describes what lies below. -/
theorem gives_withinModel_iff {expansion : Expansion} {path : FieldPath} {declared : TypeId}
    {hint : Hint} {action : Expanding TreeNode} {node : TreeNode} :
    Gives (expansion.withinModel path declared hint action) state node after
      ↔ match (expansion.upon state.types).namedModel? declared with
        | none => Gives action state node after
        | some definition =>
            match state.guard.enter definition with
            | (.entered, guard) => ∃ middle, Gives action (state.withGuard guard) node middle
                ∧ after = middle.withGuard (middle.guard.leave definition)
            | (.cycle, guard) => hint.describesBelow = true
                ∧ Gives action (state.withGuard guard) node after
            | _ => False := by
  unfold withinModel
  rw [gives_catalog_bind_iff]
  cases (expansion.upon state.types).namedModel? declared with
  | none => exact Iff.rfl
  | some definition =>
    simp only [gives_modifyGet_bind_iff]
    cases state.guard.enter definition with
    | mk admission guard =>
      cases admission with
      | entered => exact gives_thenAlways_iff
      | cycle =>
        cases hint.describesBelow with
        | true => exact (and_iff_right rfl).symm
        | false => exact iff_of_false not_gives_throw fun h => Bool.false_ne_true h.1
      | tooDeep | tooMany => exact iff_of_false not_gives_throw id

/-! ## Nodes -/

/-- Makes the node that is planned for a position. -/
def make (expansion : Expansion) (below : Maker) (path : FieldPath) (declared : TypeId)
    (hint : Hint) (nullable : Bool) : NodePlan → Expanding TreeNode
  | .control =>
      return .control (← intern (Interning.controlType expansion.models declared nullable))
  | .group properties =>
      expansion.withinModel path declared hint (expansion.group below path hint properties)
  | .array element => expansion.array below path hint element

theorem gives_nodeStep_iff {expansion : Expansion} {below : Maker} {path : FieldPath}
    {declared stripped : TypeId} {hint : Hint} {nullable : Bool} {node : TreeNode}
    {types : TypeTable}
    (strips : Interning.withoutNullish expansion.models declared state.types = (stripped, types)) :
    Gives (expansion.nodeStep below path declared hint nullable) state node after
      ↔ state.depth.level < state.depth.maxLevel ∧ ∃ plan middle,
        NodePlan.ofClass? ((expansion.upon types).classify stripped) hint.kind? = some plan
          ∧ Gives (expansion.make below path declared hint nullable plan)
            (state.deeper.withTypes types) node middle
          ∧ after = { middle with depth := middle.depth.leave } := by
  have strips' : Interning.withoutNullish expansion.models declared state.deeper.types
      = (stripped, types) := strips
  have types' : (state.deeper.withTypes types).types = types := rfl
  have planned := @Catalog.plan_eq_ok_iff (expansion.upon types) stripped hint path
  unfold nodeStep
  simp only [gives_withinLevel_iff, gives_intern_bind_iff, gives_catalog_bind_iff, strips', types',
    ← planned]
  refine and_congr_right fun _ => ?_
  cases (expansion.upon types).plan stripped hint path with
  | error error =>
    constructor
    · rintro ⟨_, h, _⟩
      exact absurd h not_gives_throw
    · rintro ⟨_, _, h, _⟩
      cases h
  | ok plan =>
    constructor
    · rintro ⟨middle, h, rfl⟩
      cases plan with
      | control => exact ⟨_, middle, rfl, h, rfl⟩
      | group properties => exact ⟨_, middle, rfl, h, rfl⟩
      | array element => exact ⟨_, middle, rfl, h, rfl⟩
    · rintro ⟨_, middle, h, h', rfl⟩
      cases h
      cases plan with
      | control => exact ⟨middle, h', rfl⟩
      | group properties => exact ⟨middle, h', rfl⟩
      | array element => exact ⟨middle, h', rfl⟩

/-! ## Following the rules -/

/-- Whatever is made follows the rules and fits, and the state is advanced by it. -/
def Follows (expansion : Expansion) (below : Maker) : Prop :=
  ∀ ⦃path : FieldPath⦄ ⦃declared : TypeId⦄ ⦃hint : Hint⦄ ⦃nullable : Bool⦄
    ⦃state after : ExpansionState⦄ ⦃node : TreeNode⦄, state.Ready →
    Gives (below path declared hint nullable) state node after →
    ∃ named types, expansion.Expands state.types declared hint nullable node named types
      ∧ state.Fits node.height named ∧ after = state.advance types named

section

variable {expansion : Expansion} {below : Maker} {path : FieldPath} {hint : Hint}

theorem Follows.members (follows : expansion.Follows below) {properties : List Property}
    {members : List (String × (Bool × TreeNode))} (ready : state.Ready)
    (h : Gives (expansion.members below path hint properties) state members after) :
    ∃ named types, expansion.ExpandsMembers state.types hint properties members named types
      ∧ state.Fits (TreeNode.heightOfMembers members) named
      ∧ after = state.advance types named := by
  induction properties generalizing state after members with
  | nil =>
    obtain ⟨rfl, rfl⟩ := gives_pure_iff.1 h
    exact ⟨0, _, .nil, ready.fits_nothing, rfl⟩
  | cons p rest ih =>
    unfold Expansion.members at h
    obtain ⟨decided, _, hdecided, h⟩ := gives_bind_iff.1 h
    obtain ⟨rfl, rfl⟩ := gives_decide_iff.1 hdecided
    obtain ⟨node, middle, hnode, h⟩ := gives_bind_iff.1 h
    obtain ⟨first, types, head, fits, rfl⟩ := follows ready hnode
    obtain ⟨others, _, hrest, h⟩ := gives_bind_iff.1 h
    obtain ⟨more, final, tail, fitsRest, rfl⟩ := ih (ready.advance fits) hrest
    obtain ⟨rfl, rfl⟩ := gives_pure_iff.1 h
    exact ⟨first + more, final, .cons rfl head tail, fits.more fitsRest,
      ExpansionState.advance_advance⟩

/-- A group with the models that it stands for counted, as it is made after they are entered. -/
theorem of_gives_withinModel {declared : TypeId} {action : Expanding TreeNode} {node : TreeNode}
    (ready : state.Ready)
    (h : Gives (expansion.withinModel path declared hint action) state node after) :
    ∃ inner innerAfter, Gives action inner node innerAfter ∧ inner.Ready
      ∧ inner.types = state.types
      ∧ (∀ height named, inner.Fits height named →
        state.Fits height (namedCount (expansion.upon state.types) declared + named))
      ∧ ∀ types named, innerAfter = inner.advance types named →
        after = state.advance types (namedCount (expansion.upon state.types) declared + named) := by
  rw [gives_withinModel_iff] at h
  unfold namedCount
  cases hn : (expansion.upon state.types).namedModel? declared with
  | none =>
    rw [hn] at h
    refine ⟨state, after, h, ready, rfl, ?_, ?_⟩ <;> simp
  | some definition =>
    simp only [hn] at h
    have counts {guard : Guard ModelId} {height named : Nat}
        (fits : (state.withGuard guard).Fits height named)
        (hmax : guard.maxAttempts = state.guard.maxAttempts)
        (hattempts : guard.attempts = state.guard.attempts + 1) :
        state.Fits height (1 + named) := by
      have : guard.attempts + named ≤ guard.maxAttempts := fits.attempts
      exact ⟨fits.levels, by omega⟩
    simp only [Option.isSome_some, if_true]
    split at h
    next guard heq =>
      obtain ⟨room, rfl⟩ := Guard.enter_eq_entered ready.counted ready.attempts heq
      obtain ⟨middle, haction, rfl⟩ := h
      refine ⟨_, _, haction, ⟨ready.level, room, ready.counted⟩, rfl,
        fun _ _ fits => counts fits rfl rfl, ?_⟩
      rintro types named rfl
      simp [ExpansionState.withGuard, ExpansionState.advance, Guard.leave, Guard.attempted,
        Nat.add_assoc]
    next guard heq =>
      obtain ⟨room, rfl⟩ := Guard.enter_eq_cycle ready.counted ready.attempts heq
      refine ⟨_, _, h.2, ⟨ready.level, room, ready.counted⟩, rfl,
        fun _ _ fits => counts fits rfl rfl, ?_⟩
      rintro types named rfl
      simp [ExpansionState.withGuard, ExpansionState.advance, Guard.attempted, Nat.add_assoc]
    next => exact h.elim

/-- If what lies below follows the rules, so does a node. -/
theorem Follows.nodeStep (follows : expansion.Follows below) :
    expansion.Follows (expansion.nodeStep below) := by
  intro path declared hint nullable state after node ready h
  cases strips : Interning.withoutNullish expansion.models declared state.types with
  | mk stripped types =>
  obtain ⟨room, plan, middle, hplan, made, rfl⟩ := (gives_nodeStep_iff strips).1 h
  have readyDeeper : state.deeper.Ready := ⟨room, ready.attempts, ready.counted⟩
  cases plan with
  | control =>
    unfold make at made
    rw [gives_intern_bind_iff] at made
    obtain ⟨rfl, rfl⟩ := gives_pure_iff.1 made
    refine ⟨0, _, .control strips hplan rfl, ?_, ?_⟩
    · exact ExpansionState.fits_deeper_iff.1 readyDeeper.fits_nothing
    · exact @ExpansionState.leave_advance_deeper state _ 0
  | group properties =>
    obtain ⟨inner, innerAfter, made, readyInner, htypes, fits, advances⟩ :=
      of_gives_withinModel (readyDeeper.withTypes types) made
    unfold Expansion.group at made
    split at made
    next => exact absurd made not_gives_throw
    next fields =>
      obtain ⟨members, _, hmembers, collected⟩ := gives_bind_iff.1 made
      obtain ⟨named, last, expands, fitsMembers, rfl⟩ := follows.members readyInner hmembers
      obtain ⟨rfl, rfl⟩ := gives_pure_iff.1 collected
      rw [htypes] at expands
      refine ⟨_, last, .group strips hplan fields expands, ?_, ?_⟩
      · have fitsGroup := fits _ _
          (fitsMembers.mono (TreeNode.heightOfMembers_collect_le members) (Nat.le_refl named))
        exact ExpansionState.fits_deeper_iff.1 (ExpansionState.fits_withTypes_iff.1 fitsGroup)
      · rw [advances last named rfl, ExpansionState.withTypes_advance]
        exact ExpansionState.leave_advance_deeper
  | array element =>
    obtain ⟨decided, _, hdecided, made⟩ := gives_bind_iff.1 made
    obtain ⟨rfl, rfl⟩ := gives_decide_iff.1 hdecided
    obtain ⟨node, _, hbelow, made⟩ := gives_bind_iff.1 made
    obtain ⟨named, last, expands, fits, rfl⟩ := follows (readyDeeper.withTypes types) hbelow
    obtain ⟨rfl, rfl⟩ := gives_pure_iff.1 made
    refine ⟨named, last, .array strips hplan expands, ?_, ?_⟩
    · exact ExpansionState.fits_deeper_iff.1 (ExpansionState.fits_withTypes_iff.1 fits)
    · rw [ExpansionState.withTypes_advance]
      exact ExpansionState.leave_advance_deeper

theorem follows_node (expansion : Expansion) :
    ∀ levels : Nat, expansion.Follows (expansion.node levels)
  | 0 => Follows.nodeStep fun _ _ _ _ _ _ _ _ h => absurd h not_gives_throw
  | levels + 1 => Follows.nodeStep (follows_node expansion levels)

end

end Expansion

/-! ## Derived forms -/

namespace DerivedForm

open Expansion

variable {models : Definitions} {mode : Mode} {hint : Hint} {model : TypeId}
  {types after : TypeTable} {tree : DerivedForm}

theorem checkRoot_eq_ok_iff {catalog : Catalog} :
    checkRoot catalog hint model = .ok ()
      ↔ hint.kind? ≠ some .control ∧ hint.kind? ≠ some .array
        ∧ ∃ properties, catalog.classify model = .object properties := by
  unfold checkRoot
  cases hint.kind? with
  | none => cases catalog.classify model <;> simp
  | some kind =>
    cases kind with
    | control | array => simp
    | group => cases catalog.classify model <;> simp

theorem ready_start (types : TypeTable) : (ExpansionState.start types).Ready where
  level := Nat.zero_le _
  attempts := Nat.zero_le _
  counted := by
    show Limits.expansionSteps < Guard.maxCount
    decide

theorem fits_start_iff {height named : Nat} :
    (ExpansionState.start types).Fits height named
      ↔ height ≤ Limits.modelDepth ∧ named ≤ Limits.expansionSteps := by
  constructor
  · rintro ⟨levels, attempts⟩
    have levels : 0 + height ≤ Limits.modelDepth := levels
    have attempts : 0 + named ≤ Limits.expansionSteps := attempts
    exact ⟨by omega, by omega⟩
  · rintro ⟨levels, attempts⟩
    constructor
    · show 0 + height ≤ Limits.modelDepth
      omega
    · show 0 + named ≤ Limits.expansionSteps
      omega

theorem derive_eq_ok_iff_gives (hroot : checkRoot ⟨types, models⟩ hint model = .ok ()) :
    derive models mode hint model types = (.ok tree, after)
      ↔ tree.mode = mode ∧ tree.model = model ∧ ∃ last,
        Gives (node ⟨models, mode⟩ WalkKind.expansion.maxDepth .root model hint false)
          (.start types) tree.root last ∧ after = last.types := by
  unfold derive expand Gives
  rw [hroot]
  simp only
  obtain ⟨root, treeMode, treeModel⟩ := tree
  cases (node ⟨models, mode⟩ WalkKind.expansion.maxDepth .root model hint false).run.run
    (.start types) with
  | mk outcome last =>
    cases outcome with
    | error error =>
      constructor
      · intro h
        cases h
      · rintro ⟨_, _, _, h, _⟩
        cases h
    | ok made =>
      constructor
      · intro h
        cases h
        exact ⟨rfl, rfl, last, rfl, rfl⟩
      · rintro ⟨rfl, rfl, _, h, rfl⟩
        cases h
        rfl

/-- Nothing is derived, and the table stays as it was, where the root is refused. -/
theorem derive_of_refused {error : DerivationError}
    (refused : checkRoot ⟨types, models⟩ hint model = .error error) :
    derive models mode hint model types = (.error error, types) := by
  unfold derive expand
  rw [refused]
  rfl

theorem checkRoot_of_derive (h : derive models mode hint model types = (.ok tree, after)) :
    checkRoot ⟨types, models⟩ hint model = .ok () := by
  cases hroot : checkRoot ⟨types, models⟩ hint model with
  | error error => cases h.symm.trans (derive_of_refused hroot)
  | ok _ => rfl

theorem knows_of_derive (h : derive models mode hint model types = (.ok tree, after)) :
    types.Knows model := by
  obtain ⟨_, _, properties, object⟩ := checkRoot_eq_ok_iff.1 (checkRoot_of_derive h)
  exact Catalog.knows_of_classify_eq_object object

/-- A form that is derived is what the rules give for an object, within the bounds. -/
theorem expands_of_derive (h : derive models mode hint model types = (.ok tree, after)) :
    tree.mode = mode ∧ tree.model = model ∧ ∃ named,
      Expands ⟨models, mode⟩ types model hint false tree.root named after
        ∧ tree.root.height ≤ Limits.modelDepth ∧ named ≤ Limits.expansionSteps := by
  obtain ⟨hmode, hmodel, last, gives, rfl⟩ :=
    (derive_eq_ok_iff_gives (checkRoot_of_derive h)).1 h
  obtain ⟨named, left, expands, fits, rfl⟩ := follows_node _ _ (ready_start types) gives
  exact ⟨hmode, hmodel, named, expands, fits_start_iff.1 fits⟩

end DerivedForm

end ModelForms
