import ModelForms.Proofs.Tree.Cycles
import ModelForms.Proofs.Tree.Guarded

/-!
# The guard changes nothing

A form is derived exactly if the rules of expansion give it and it stays within the two bounds: no
chain of nodes is longer than the limit on depth, and no more groups stand for a model than attempts
are allowed (`derive_eq_ok_iff`).  So the guard refuses nothing else.

One direction is `follows_node`.  For the other, `Admits` is what holds of the state at a position
when everything so far was within the bounds.  The guard never has more keys than there are levels
around the position, so its own bound on keys is never the one that is hit.  Each key encloses the
position, so the rule against cycles could only refuse a group that has no finite expansion.
-/

namespace ModelForms

/-! ## Entering a guard that has room -/

namespace Guard

variable {κ : Type} [DecidableEq κ] {key : κ} {guard : Guard κ}

theorem enter_eq_of_room (counted : guard.maxAttempts < maxCount)
    (room : guard.attempts < guard.maxAttempts) (shallow : guard.depth < guard.maxDepth) :
    guard.enter key =
      if guard.isEntered key then (.cycle, guard.attempted)
      else (.entered, { guard.attempted with keys := key :: guard.keys }) := by
  rw [enter_eq counted (Nat.le_of_lt room), if_neg (Nat.ne_of_lt room),
    if_neg (Nat.not_le.2 shallow)]

end Guard

namespace ExpansionState

variable {state : ExpansionState} {types : TypeTable} {height other named others : Nat}

theorem Fits.first (fits : state.Fits (max height other) (named + others)) :
    state.Fits height named := by
  have := fits.levels
  have := fits.attempts
  exact ⟨by omega, by omega⟩

theorem Fits.rest (fits : state.Fits (max height other) (named + others)) :
    (state.advance types named).Fits other others := by
  have levels := fits.levels
  have attempts := fits.attempts
  constructor
  · show state.depth.level + other ≤ state.depth.maxLevel
    omega
  · show state.guard.attempts + named + others ≤ state.guard.maxAttempts
    omega

/-- What holds of the state at a position of a declared type while the expansion is within its
bounds. -/
structure Admits (state : ExpansionState) (catalog : Catalog) (levels : Nat) (declared : TypeId) :
    Prop extends state.Ready where
  /-- The recursion has as many levels left as the counter. -/
  left : state.depth.maxLevel ≤ state.depth.level + levels
  /-- No more keys are entered than there are levels around the position. -/
  shallow : state.guard.depth ≤ state.depth.level
  roomy : state.depth.maxLevel ≤ state.guard.maxDepth
  encloses : ∀ definition ∈ state.guard.keys, catalog.Encloses definition declared

end ExpansionState

namespace Expansion

open ExpansionState

variable {expansion : Expansion}

/-- The state with keys entered and attempts counted. -/
def entering (state : ExpansionState) (keys : List ModelId) (named : Nat) : ExpansionState :=
  state.withGuard { state.guard with keys := keys, attempts := state.guard.attempts + named }

theorem advance_entering {state : ExpansionState} {keys : List ModelId} {types : TypeTable}
    {named others : Nat} (same : keys = state.guard.keys) :
    (entering state keys named).advance types others = state.advance types (named + others) := by
  subst same
  simp [entering, advance, withGuard, Nat.add_assoc]

/-- A group is made if it is made whether or not its model is entered, and if a model that is
entered already is under a hint that describes what lies below. -/
theorem gives_withinModel {state : ExpansionState} {path : FieldPath} {declared : TypeId}
    {hint : Hint} {action : Expanding TreeNode} {node : TreeNode} {types : TypeTable}
    {height named : Nat} (ready : state.Ready)
    (fits : state.Fits height (namedCount (expansion.upon state.types) declared + named))
    (shallow : state.guard.depth < state.guard.maxDepth)
    (described : ∀ definition ∈ state.guard.keys,
      (expansion.upon state.types).namedModel? declared = some definition →
        hint.describesBelow = true)
    (run : ∀ keys, (keys = state.guard.keys ∨ ∃ definition,
        (expansion.upon state.types).namedModel? declared = some definition
          ∧ keys = definition :: state.guard.keys) →
      Gives action (entering state keys (namedCount (expansion.upon state.types) declared)) node
        ((entering state keys (namedCount (expansion.upon state.types) declared)).advance types
          named)) :
    Gives (expansion.withinModel path declared hint action) state node
      (state.advance types (namedCount (expansion.upon state.types) declared + named)) := by
  rw [gives_withinModel_iff]
  have attempts := fits.attempts
  unfold namedCount at attempts run ⊢
  cases hn : (expansion.upon state.types).namedModel? declared with
  | none =>
    simp only [hn, Option.isSome_none, Bool.false_eq_true, if_false, Nat.zero_add] at run ⊢
    exact run _ (Or.inl rfl)
  | some definition =>
    simp only [hn, Option.isSome_some, if_true] at attempts run ⊢
    rw [Guard.enter_eq_of_room ready.counted (by omega) shallow]
    by_cases entered : definition ∈ state.guard.keys
    · have isEntered : state.guard.isEntered definition = true := by
        simpa [Guard.isEntered] using entered
      rw [if_pos isEntered, ← advance_entering rfl]
      exact ⟨described definition entered hn, run _ (Or.inl rfl)⟩
    · have isEntered : ¬ state.guard.isEntered definition = true := by
        simpa [Guard.isEntered] using entered
      rw [if_neg isEntered]
      refine ⟨_, run _ (Or.inr ⟨definition, rfl, rfl⟩), ?_⟩
      simp [entering, advance, withGuard, Guard.leave, Nat.add_assoc]

/-! ## Whatever the rules give is made -/

section

variable {final : Catalog} {state : ExpansionState} {levels : Nat} {declared : TypeId}

theorem Admits.advance (admits : state.Admits final levels declared) {types : TypeTable}
    {height named : Nat} (fits : state.Fits height named) :
    (state.advance types named).Admits final levels declared :=
  { admits.toReady.advance fits with
    left := admits.left
    shallow := admits.shallow
    roomy := admits.roomy
    encloses := admits.encloses }

/-- One level further in, with the model of a group entered or not, the state admits what lies
below. -/
theorem Admits.below (admits : state.Admits final (levels + 1) declared) {types : TypeTable}
    {keys : List ModelId} {part : TypeId} {height named : Nat}
    (fits : state.Fits (height + 1) named)
    (keysCases : keys = state.guard.keys ∨ ∃ definition,
      final.Encloses definition part ∧ keys = definition :: state.guard.keys)
    (below : final.Below part declared) :
    (entering (state.deeper.withTypes types) keys named).Admits final levels part := by
  have left := admits.left
  have shallow := admits.shallow
  have fitsLevels := fits.levels
  have outside {definition : ModelId} (h : definition ∈ state.guard.keys) :
      final.Encloses definition part := (admits.encloses definition h).below below
  refine { level := ?_, attempts := fits.attempts, counted := admits.counted, left := ?_,
           shallow := ?_, roomy := admits.roomy, encloses := ?_ }
  · show state.depth.level + 1 ≤ state.depth.maxLevel
    omega
  · show state.depth.maxLevel ≤ state.depth.level + 1 + levels
    omega
  · show keys.length ≤ state.depth.level + 1
    have hdepth : state.guard.keys.length ≤ state.depth.level := shallow
    rcases keysCases with rfl | ⟨definition, _, rfl⟩
    · omega
    · simp only [List.length_cons]
      omega
  · intro definition h
    have h : definition ∈ keys := h
    rcases keysCases with rfl | ⟨entered, encloses, rfl⟩
    · exact outside h
    · rcases List.mem_cons.1 h with rfl | h
      · exact encloses
      · exact outside h

theorem Admits.room (admits : state.Admits final levels declared) {height named : Nat}
    (fits : state.Fits (height + 1) named) :
    state.depth.level < state.depth.maxLevel ∧ ∃ more, levels = more + 1 := by
  have left := admits.left
  have fitsLevels := fits.levels
  refine ⟨by omega, levels - 1, by omega⟩

end

section

variable {final : Catalog}

/-- A group is made if its members are, wherever the state admits them.  This is where the guard is
asked: a model that is entered already encloses the group, so without a hint that describes what
lies below the group would have no finite expansion. -/
theorem gives_group (wfFinal : final.WellFormed) {types after : TypeTable}
    {state : ExpansionState} {levels : Nat} {path : FieldPath} {declared stripped : TypeId}
    {hint : Hint} {nullable : Bool} {properties : List Property}
    {members : List (String × (Bool × TreeNode))} {named : Nat}
    (wf : (expansion.upon types).WellFormed) (grows : (expansion.upon types).GrowsTo final)
    (known : types.Knows declared)
    (strips : Interning.withoutNullish expansion.models declared state.types = (stripped, types))
    (plan : NodePlan.ofClass? ((expansion.upon types).classify stripped) hint.kind?
      = some (.group properties))
    (shape : (expansion.upon types).shape declared = .object properties)
    (fields : strangeField? properties hint = none)
    (yields : final.YieldsMembers expansion.mode hint properties members)
    (admits : state.Admits final levels declared)
    (fits : state.Fits (TreeNode.heightOfMembers members + 1)
      (namedCount (expansion.upon types) declared + named))
    (collected : Entries.collect members = members)
    (below : ∀ (inner : ExpansionState) (more : Nat), levels = more + 1 → inner.types = types →
      (∀ p ∈ properties, inner.Admits final more p.type) →
      inner.Fits (TreeNode.heightOfMembers members) named →
      Gives (expansion.members (expansion.node more) path hint properties) inner members
        (inner.advance after named)) :
    Gives (expansion.node levels path declared hint nullable) state (.group members)
      (state.advance after (namedCount (expansion.upon types) declared + named)) := by
  obtain ⟨room, more, rfl⟩ := Admits.room admits fits
  have finalShape := (grows.shape_eq wf known).trans shape
  have model {definition : ModelId}
      (hnamed : (expansion.upon types).namedModel? declared = some definition) :
      final.ModelHas definition properties := (wf.modelHas hnamed shape).growsTo grows wf
  have fitsInner : (state.deeper.withTypes types).Fits (TreeNode.heightOfMembers members)
      (namedCount (expansion.upon types) declared + named) :=
    fits_withTypes_iff.2 (fits_deeper_iff.2 fits)
  have shallow : state.guard.depth < state.guard.maxDepth :=
    Nat.lt_of_le_of_lt admits.shallow (Nat.lt_of_lt_of_le room admits.roomy)
  refine (gives_nodeStep_iff strips).2 ⟨room, .group properties, _, plan, ?_,
    leave_advance_deeper.symm⟩
  refine gives_withinModel
    ⟨room, admits.attempts, admits.counted⟩ fitsInner shallow ?_ ?_
  · intro definition entered hnamed
    refine Decidable.byContradiction fun describes => ?_
    have silent : hint.Silent := by
      refine ⟨by simpa using describes, fun asked => ?_⟩
      rw [asked, NodePlan.ofClass?_control] at plan
      cases plan
    have yieldsGroup : final.Yields expansion.mode declared hint nullable
      (.group (Entries.collect members)) := .group finalShape yields
    exact Catalog.not_acc_of_encloses wfFinal (model hnamed) finalShape
      (admits.encloses definition entered) (Catalog.acc_of_yields silent yieldsGroup)
  · intro keys hkeys
    unfold Expansion.group
    rw [fields]
    refine gives_bind_iff.2 ⟨members, _, below _ more rfl rfl (fun p hp => ?_) ?_, ?_⟩
    · have below : final.Below p.type declared := .property finalShape hp
      refine Admits.below admits (fits.mono (Nat.le_refl _) (Nat.le_add_right _ named)) ?_ below
      rcases hkeys with rfl | ⟨definition, hnamed, rfl⟩
      · exact Or.inl rfl
      · exact Or.inr ⟨definition, (model hnamed).encloses finalShape below, rfl⟩
    · have attempts := fits.attempts
      refine ⟨fitsInner.levels, ?_⟩
      show state.guard.attempts + namedCount (expansion.upon types) declared + named
        ≤ state.guard.maxAttempts
      omega
    · rw [collected]
      exact gives_pure_iff.2 ⟨rfl, rfl⟩

mutual

theorem Expands.gives (wfFinal : final.WellFormed) {types after : TypeTable} {declared : TypeId}
    {hint : Hint} {nullable : Bool} {node : TreeNode} {named : Nat}
    (wf : (expansion.upon types).WellFormed)
    (distinct : types.DistinctNames) (known : types.Knows declared)
    (grows : (expansion.upon after).GrowsTo final) :
    expansion.Expands types declared hint nullable node named after →
      ∀ (state : ExpansionState) (levels : Nat) (path : FieldPath), state.types = types →
        state.Admits final levels declared → state.Fits node.height named →
        Gives (expansion.node levels path declared hint nullable) state node
          (state.advance after named)
  | .control strips plan typed => by
    intro state levels path htypes admits fits
    subst htypes
    obtain ⟨room, more, rfl⟩ := @Admits.room _ _ _ _ admits 0 _ fits
    refine (gives_nodeStep_iff strips).2
      ⟨room, .control, state.deeper.advance after 0, plan, ?_, ?_⟩
    · unfold make
      rw [gives_intern_bind_iff, gives_pure_iff]
      have typed' : Interning.controlType expansion.models _ nullable
        (state.deeper.withTypes _).types = _ := typed
      rw [typed']
      exact ⟨rfl, rfl⟩
    · exact leave_advance_deeper.symm
  | @Expands.group _ _ middle _ _ _ _ _ properties _ _ strips plan fields below => by
    intro state levels path htypes admits fits
    subst htypes
    obtain ⟨wf', adds, class_eq⟩ := stripped_spec strips wf known
    have shape := class_eq.symm.trans (NodePlan.eq_object_of_ofClass? plan)
    have known' := adds.growsTo.knows known
    have knownParts : ∀ p ∈ properties, middle.Knows p.type := fun p hp =>
      wf'.knows_property shape hp
    have distinct' := distinct.addsUnions adds
    have settled := ExpandsMembers.settles wf' knownParts below
    have toFinal := settled.grows.trans grows
    have yields := settled.holds final grows
    have collected := yields.collect_eq (wf'.nodup_names distinct' shape)
    rw [collected] at fits ⊢
    exact gives_group wfFinal wf' toFinal known' strips plan shape fields yields admits fits
      collected fun inner more _ htypes admits fits =>
        ExpandsMembers.gives wfFinal wf' distinct' knownParts grows below inner more path htypes
          admits fits
  | @Expands.array _ _ middle _ _ _ element _ _ _ _ strips plan below => by
    intro state levels path htypes admits fits
    subst htypes
    obtain ⟨wf', adds, class_eq⟩ := stripped_spec strips wf known
    have shape := class_eq.symm.trans (NodePlan.eq_array_of_ofClass? plan)
    have knownElement := wf'.knows_element shape
    have settled := Expands.settles wf' knownElement below
    have toFinal := settled.grows.trans grows
    have finalShape := (toFinal.shape_eq wf' (adds.growsTo.knows known)).trans shape
    obtain ⟨room, more, rfl⟩ := Admits.room admits fits
    have admitsElement : (state.deeper.withTypes middle).Admits final more element :=
      Admits.below admits (fits.mono (Nat.le_refl _) (Nat.zero_le _)) (Or.inl rfl)
        (.element finalShape)
    have givesElement := Expands.gives wfFinal wf' (distinct.addsUnions adds) knownElement grows
      below _ more path.element rfl admitsElement (fits_withTypes_iff.2 (fits_deeper_iff.2 fits))
    refine (gives_nodeStep_iff strips).2 ⟨room, .array element, _, plan, ?_,
      leave_advance_deeper.symm⟩
    exact gives_bind_iff.2 ⟨_, _, gives_decide_iff.2 ⟨rfl, rfl⟩, gives_bind_iff.2
      ⟨_, _, givesElement, gives_pure_iff.2 ⟨rfl, rfl⟩⟩⟩

theorem ExpandsMembers.gives (wfFinal : final.WellFormed) {types after : TypeTable} {hint : Hint}
    {properties : List Property} {members : List (String × (Bool × TreeNode))} {named : Nat}
    (wf : (expansion.upon types).WellFormed) (distinct : types.DistinctNames)
    (known : ∀ p ∈ properties, types.Knows p.type)
    (grows : (expansion.upon after).GrowsTo final) :
    expansion.ExpandsMembers types hint properties members named after →
      ∀ (state : ExpansionState) (levels : Nat) (path : FieldPath), state.types = types →
        (∀ p ∈ properties, state.Admits final levels p.type) →
        state.Fits (TreeNode.heightOfMembers members) named →
        Gives (expansion.members (expansion.node levels) path hint properties) state members
          (state.advance after named)
  | .nil => by
    intro state levels path htypes _ _
    subst htypes
    exact gives_pure_iff.2 ⟨rfl, rfl⟩
  | @ExpandsMembers.cons _ _ middle _ _ p rest _ _ _ _ _ decides head tail => by
    intro state levels path htypes admits fits
    have knownFirst := known p List.mem_cons_self
    have first := Expands.settles wf knownFirst head
    have knownRest : ∀ q ∈ rest, middle.Knows q.type := fun q hq =>
      first.adds.growsTo.knows (known q (List.mem_cons_of_mem p hq))
    have others := ExpandsMembers.settles first.wellFormed knownRest tail
    have toFinal := others.grows.trans grows
    have givesFirst := Expands.gives wfFinal wf distinct knownFirst toFinal head state levels
      (path.field p.name) htypes (admits p List.mem_cons_self) fits.first
    have givesRest := ExpandsMembers.gives wfFinal first.wellFormed
      (distinct.addsUnions first.adds) knownRest grows tail _ levels path rfl
      (fun q hq => Admits.advance (admits q (List.mem_cons_of_mem p hq)) fits.first) fits.rest
    unfold Expansion.members
    subst htypes decides
    refine gives_bind_iff.2 ⟨_, state, gives_decide_iff.2 ⟨rfl, rfl⟩, gives_bind_iff.2
      ⟨_, _, givesFirst, gives_bind_iff.2 ⟨_, _, givesRest, gives_pure_iff.2 ⟨rfl, ?_⟩⟩⟩⟩
    exact advance_advance.symm

end

end

end Expansion

namespace DerivedForm

open Expansion ExpansionState

/-- The outermost node of a derived form is a group. -/
theorem exists_root_eq_group {models : Definitions} {mode : Mode} {hint : Hint} {model : TypeId}
    {types after : TypeTable} {tree : DerivedForm} (wf : Catalog.WellFormed ⟨types, models⟩)
    (derives : derive models mode hint model types = (.ok tree, after)) :
    ∃ members, tree.root = .group members := by
  obtain ⟨noControl, _, _, object⟩ := checkRoot_eq_ok_iff.1 (checkRoot_of_derive derives)
  obtain ⟨_, _, _, expands, _⟩ := expands_of_derive derives
  have known := knows_of_derive derives
  have settled := expands.settles wf known
  have shape := (settled.grows.shape_eq wf known).trans
    (Catalog.shape_eq_of_classify_eq_object object)
  have yields := settled.holds _ (.refl _)
  generalize tree.root = root at yields
  cases yields with
  | control plan =>
    exact absurd shape ((NodePlan.not_structural_of_ofClass? plan noControl).1 _)
  | group => exact ⟨_, rfl⟩
  | array other =>
    rw [shape] at other
    cases other

/-- What the rules give for an object is derived where no chain of its nodes and no number of its
groups is over a limit. -/
theorem derive_of_expands {models : Definitions} {mode : Mode} {hint : Hint} {model : TypeId}
    {types after : TypeTable} {root : TreeNode} {named : Nat}
    (wf : Catalog.WellFormed ⟨types, models⟩) (distinct : types.DistinctNames)
    {properties : List Property}
    (object : Catalog.classify ⟨types, models⟩ model = .object properties)
    (noControl : hint.kind? ≠ some .control) (noArray : hint.kind? ≠ some .array)
    (expands : Expands ⟨models, mode⟩ types model hint false root named after)
    (height : root.height ≤ Limits.modelDepth) (count : named ≤ Limits.expansionSteps) :
    derive models mode hint model types = (.ok ⟨root, mode, model⟩, after) := by
  have known : types.Knows model := Catalog.knows_of_classify_eq_object object
  have settled := expands.settles wf known
  have admits : (ExpansionState.start types).Admits ⟨after, models⟩ Limits.modelDepth model :=
    { ready_start types with
      left := Nat.le_add_left _ _
      shallow := Nat.le_refl _
      roomy := Nat.le_refl _
      encloses := by simp [ExpansionState.start, Guard.forWalk, Guard.new] }
  have gives := expands.gives settled.wellFormed wf distinct known (.refl _) _ _ .root rfl admits
    (fits_start_iff.2 ⟨height, count⟩)
  exact (derive_eq_ok_iff_gives (checkRoot_eq_ok_iff.2 ⟨noControl, noArray, _, object⟩)).2
    ⟨rfl, rfl, _, gives, rfl⟩

/-- A form is derived from an object exactly if the rules give it, no chain of its nodes is longer
than the limit on depth, and it has no more groups that stand for a model than the limit on
attempts. -/
theorem derive_eq_ok_iff {models : Definitions} {mode : Mode} {hint : Hint} {model : TypeId}
    {types after : TypeTable} {tree : DerivedForm} (wf : Catalog.WellFormed ⟨types, models⟩)
    (distinct : types.DistinctNames) {properties : List Property}
    (object : Catalog.classify ⟨types, models⟩ model = .object properties)
    (noControl : hint.kind? ≠ some .control) (noArray : hint.kind? ≠ some .array) :
    derive models mode hint model types = (.ok tree, after)
      ↔ tree.mode = mode ∧ tree.model = model ∧ ∃ named,
        Expands ⟨models, mode⟩ types model hint false tree.root named after
          ∧ tree.root.height ≤ Limits.modelDepth ∧ named ≤ Limits.expansionSteps := by
  constructor
  · exact expands_of_derive
  · obtain ⟨root, _, _⟩ := tree
    rintro ⟨rfl, rfl, _, expands, height, count⟩
    exact derive_of_expands wf distinct object noControl noArray expands height count

/-- A person has friends, who are persons.  The hint ends the expansion. -/
def personHint : Hint := .fields [("friends", .elements (.kind .control))]

theorem expands_person : ∃ named,
    Expands ⟨Catalog.person.models, ⟨.never, .declared⟩⟩ Catalog.person.types ⟨103⟩ personHint false
        (.group [("name", (false, .control (.ofIntrinsic .string))),
          ("friends", (true, .array (.control ⟨100⟩)))])
        named Catalog.person.types
      ∧ named ≤ Limits.expansionSteps := by
  have derives : derive Catalog.person.models ⟨.never, .declared⟩ personHint ⟨103⟩
      Catalog.person.types = (.ok ⟨.group [("name", (false, .control (.ofIntrinsic .string))),
        ("friends", (true, .array (.control ⟨100⟩)))], ⟨.never, .declared⟩, ⟨103⟩⟩,
        Catalog.person.types) := rfl
  have wf : Catalog.person.WellFormed := by decide
  have object : Catalog.person.classify ⟨103⟩ = .object
      [⟨"name", .ofIntrinsic .string, false⟩, ⟨"friends", ⟨102⟩, true⟩] := rfl
  obtain ⟨_, _, named, expands, _, count⟩ :=
    (derive_eq_ok_iff wf (by decide) object (by decide) (by decide)).1 derives
  exact ⟨named, expands, count⟩

end DerivedForm

end ModelForms
