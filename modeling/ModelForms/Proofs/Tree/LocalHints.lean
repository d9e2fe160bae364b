import ModelForms.Proofs.Bounds.GuardCalls
import ModelForms.Proofs.Tree.Collapsing
import ModelForms.Proofs.Tree.Exactness
import ModelForms.Proofs.Tree.Visits

/-!
# Hints act locally

If a model has a form without a hint, it has one under every hint that agrees with that form, and
the form is the same but for the positions that the hint asks for controls at
(`DerivedForm.derive_of_agrees`).

A control in the place of a group or an array spares what lies below.  So the expansion under the
hint counts no more attempts than the one without, and it is inside of the same models and at the
same level wherever both get to.  `Behind` relates the states of the two in this way, and whatever
the first expansion succeeds with, the second one succeeds with as well (`Tracks`).  No model is
entered twice without a hint, so that a hint may unroll one has no part in this.  What the second
expansion comes to is then a matter of the rules (`Expansion.Expands.eq_collapse`).
-/

namespace ModelForms

namespace Guard

variable {κ : Type} [DecidableEq κ] {key : κ} {ahead behind : Guard κ}

/-- A guard has the keys and bounds of another, and no more attempts. -/
structure Behind (ahead behind : Guard κ) : Prop where
  keys : behind.keys = ahead.keys
  maxDepth : behind.maxDepth = ahead.maxDepth
  maxAttempts : behind.maxAttempts = ahead.maxAttempts
  attempts : behind.attempts ≤ ahead.attempts

/-- A key that is entered ahead is entered behind. -/
theorem Behind.enter (follows : Behind ahead behind) {entered : Guard κ}
    (h : ahead.enter key = (.entered, entered)) :
    ∃ entered', behind.enter key = (.entered, entered') ∧ Behind entered entered' := by
  obtain ⟨counted, shallow, new, rfl⟩ := enter_eq_entered_iff.1 h
  obtain ⟨keys, maxDepth, maxAttempts, attempts⟩ := follows
  have fewer : min (behind.attempts + 1) maxCount ≤ min (ahead.attempts + 1) maxCount := by omega
  refine ⟨_, enter_eq_entered_iff.2 ⟨?_, ?_, ?_, rfl⟩, ?_⟩
  · rw [maxAttempts]
    exact Nat.le_trans fewer counted
  · rwa [depth, keys, maxDepth]
  · rwa [isEntered, keys]
  · exact ⟨congrArg (key :: ·) keys, maxDepth, maxAttempts, fewer⟩

theorem Behind.leave (follows : Behind ahead behind) (key : κ) :
    Behind (ahead.leave key) (behind.leave key) :=
  ⟨congrArg List.tail follows.keys, follows.maxDepth, follows.maxAttempts, follows.attempts⟩

end Guard

namespace Expansion

open Catalog

/-! ## States -/

/-- A state is at the place of another and has counted no more attempts.  Both tables have grown
from one. -/
structure Behind (models : Definitions) (base : TypeTable) (ahead behind : ExpansionState) :
    Prop where
  guard : ahead.guard.Behind behind.guard
  depth : behind.depth = ahead.depth
  ready : ahead.Ready
  grown : Over models base ahead.types
  grown' : Over models base behind.types

namespace Behind

variable {models : Definitions} {base : TypeTable} {ahead behind : ExpansionState}

theorem withTypes (follows : Behind models base ahead behind) {types types' : TypeTable}
    (grown : Over models base types) (grown' : Over models base types') :
    Behind models base (ahead.withTypes types) (behind.withTypes types') :=
  ⟨follows.guard, follows.depth, follows.ready.withTypes types, grown, grown'⟩

theorem deeper (follows : Behind models base ahead behind)
    (room : ahead.depth.level < ahead.depth.maxLevel) :
    Behind models base ahead.deeper behind.deeper :=
  ⟨follows.guard,
    congrArg (fun depth : Depth => { depth with level := depth.level + 1 }) follows.depth,
    ⟨room, follows.ready.attempts, follows.ready.counted⟩, follows.grown, follows.grown'⟩

theorem leaveLevel (follows : Behind models base ahead behind) :
    Behind models base { ahead with depth := ahead.depth.leave }
      { behind with depth := behind.depth.leave } := by
  have level : ahead.depth.level - 1 ≤ ahead.depth.maxLevel :=
    Nat.le_trans (Nat.sub_le _ _) follows.ready.level
  exact ⟨follows.guard, congrArg Depth.leave follows.depth,
    ⟨level, follows.ready.attempts, follows.ready.counted⟩, follows.grown, follows.grown'⟩

/-- A model that is entered ahead is entered behind. -/
theorem enterModel (follows : Behind models base ahead behind) {definition : ModelId}
    {guard : Guard ModelId} (h : ahead.guard.enter definition = (.entered, guard)) :
    ∃ guard', behind.guard.enter definition = (.entered, guard')
      ∧ Behind models base (ahead.withGuard guard) (behind.withGuard guard') := by
  obtain ⟨guard', entered, behindGuard⟩ := follows.guard.enter h
  obtain ⟨room, rfl⟩ := Guard.enter_eq_entered follows.ready.counted follows.ready.attempts h
  exact ⟨guard', entered, behindGuard, follows.depth,
    ⟨follows.ready.level, room, follows.ready.counted⟩, follows.grown, follows.grown'⟩

theorem leaveModel (follows : Behind models base ahead behind) (definition : ModelId) :
    Behind models base (ahead.withGuard (ahead.guard.leave definition))
      (behind.withGuard (behind.guard.leave definition)) :=
  ⟨follows.guard.leave definition, follows.depth,
    ⟨follows.ready.level, follows.ready.attempts, follows.ready.counted⟩,
    follows.grown, follows.grown'⟩

/-- Whatever is expanded ahead, the state that has expanded nothing named is behind. -/
theorem advance (follows : Behind models base ahead behind) {types types' : TypeTable}
    {height named : Nat} (fits : ahead.Fits height named) (grown : Over models base types)
    (grown' : Over models base types') :
    Behind models base (ahead.advance types named) (behind.advance types' 0) := by
  have attempts : behind.guard.attempts ≤ ahead.guard.attempts + named :=
    Nat.le_trans follows.guard.attempts (Nat.le_add_right _ named)
  exact ⟨⟨follows.guard.keys, follows.guard.maxDepth, follows.guard.maxAttempts, attempts⟩,
    follows.depth, follows.ready.advance fits, grown, grown'⟩

end Behind

/-! ## Actions -/

/-- An action succeeds, and its state ends behind another. -/
def KeepsUp {α : Type} (models : Definitions) (base : TypeTable) (after : ExpansionState)
    (action : Expanding α) (behind : ExpansionState) : Prop :=
  ∃ result after', Gives action behind result after' ∧ Behind models base after after'

namespace KeepsUp

variable {α β : Type} {models : Definitions} {base : TypeTable}
  {ahead after behind : ExpansionState}

theorem pure (follows : Behind models base ahead behind) (a : α) :
    KeepsUp models base ahead (Pure.pure a) behind :=
  ⟨a, behind, gives_pure_iff.2 ⟨rfl, rfl⟩, follows⟩

theorem bind {action : Expanding α} {next : α → Expanding β}
    (first : KeepsUp models base ahead action behind)
    (rest : ∀ a middle, Behind models base ahead middle →
      KeepsUp models base after (next a) middle) :
    KeepsUp models base after (action >>= next) behind := by
  obtain ⟨a, middle, gives, follows⟩ := first
  obtain ⟨b, after', gives', follows'⟩ := rest a middle follows
  exact ⟨b, after', gives_bind_iff.2 ⟨a, middle, gives, gives'⟩, follows'⟩

theorem decide {expansion : Expansion} (follows : Behind models base ahead behind) (type : TypeId)
    (optional : Bool) : KeepsUp models base ahead (expansion.decide type optional) behind :=
  ⟨_, behind, gives_decide_iff.2 ⟨rfl, rfl⟩, follows⟩

end KeepsUp

section

variable {expansion : Expansion} {base : TypeTable} {below : Maker} {path : FieldPath}
  {declared : TypeId} {hint : Hint} {ahead after behind : ExpansionState} {node : TreeNode}

/-- Without a hint no model is made that is entered already.  So a model is entered behind as it is
ahead, whatever the hint there. -/
theorem KeepsUp.withinModel (wf : (expansion.upon base).WellFormed) (known : base.Knows declared)
    {action action' : Expanding TreeNode} (follows : Behind expansion.models base ahead behind)
    (made : Gives (expansion.withinModel path declared .unspecified action) ahead node after)
    (keepsUp : ∀ {ahead behind after : ExpansionState}, Behind expansion.models base ahead behind →
      Gives action ahead node after → KeepsUp expansion.models base after action' behind) :
    KeepsUp expansion.models base after (expansion.withinModel path declared hint action')
      behind := by
  have namesAhead := follows.grown.catalog.namedModel?_eq wf known
  have namesBehind := follows.grown'.catalog.namedModel?_eq wf known
  rw [gives_withinModel_iff] at made
  unfold KeepsUp
  simp only [gives_withinModel_iff]
  cases names : (expansion.upon base).namedModel? declared with
  | none =>
    simp only [namesAhead, names] at made
    simp only [namesBehind, names]
    exact keepsUp follows made
  | some definition =>
    simp only [namesAhead, names] at made
    simp only [namesBehind, names]
    split at made
    next guard entered =>
      obtain ⟨middle, made, rfl⟩ := made
      obtain ⟨guard', entered', follows⟩ := follows.enterModel entered
      obtain ⟨node', middle', made', follows⟩ := keepsUp follows made
      simp only [entered']
      exact ⟨node', _, ⟨middle', made', rfl⟩, follows.leaveModel definition⟩
    next => exact absurd made.1 Bool.false_ne_true
    next => exact made.elim

/-- A control is made behind whatever is made ahead. -/
theorem KeepsUp.control (wf : (expansion.upon base).WellFormed) (known : base.Knows declared)
    (follows : Behind expansion.models base ahead behind)
    (room : ahead.depth.level < ahead.depth.maxLevel)
    (planned : NodePlan.ofClass? ((expansion.upon base).shape declared) hint.kind? = some .control)
    {types : TypeTable} {height named : Nat} (fits : ahead.Fits height named)
    (grown : Over expansion.models base types) (nullable : Bool) :
    KeepsUp expansion.models base (ahead.advance types named)
      (expansion.nodeStep below path declared hint nullable) behind := by
  cases strips : Interning.withoutNullish expansion.models declared behind.types with
  | mk stripped middle =>
  obtain ⟨grownMiddle, class_eq⟩ := over_of_strips wf follows.grown' known strips
  rw [← class_eq] at planned
  rw [← follows.depth] at room
  have made : Gives (expansion.make below path declared hint nullable .control)
      (behind.deeper.withTypes middle)
      (.control (Interning.controlType expansion.models declared nullable middle).1)
      (behind.deeper.advance (Interning.controlType expansion.models declared nullable middle).2 0) :=
    gives_intern_bind_iff.2 (gives_pure_iff.2 ⟨rfl, rfl⟩)
  refine ⟨_, _, (gives_nodeStep_iff strips).2 ⟨room, .control, _, planned, made, rfl⟩, ?_⟩
  rw [ExpansionState.leave_advance_deeper]
  exact follows.advance fits grown (grownMiddle.controlType known nullable).1

/-! ## Nodes -/

/-- Where nodes are made without a hint, they are made under every hint that agrees with them. -/
def Tracks (expansion : Expansion) (base : TypeTable) (below : Maker) : Prop :=
  ∀ ⦃path : FieldPath⦄ ⦃declared : TypeId⦄ ⦃hint : Hint⦄ ⦃nullable : Bool⦄
    ⦃ahead after behind : ExpansionState⦄ ⦃node : TreeNode⦄, base.Knows declared →
    Behind expansion.models base ahead behind →
    Gives (below path declared .unspecified nullable) ahead node after →
    hint.agrees node = true → (expansion.upon base).Unambiguous declared hint →
      ∀ nullable', KeepsUp expansion.models base after (below path declared hint nullable') behind

theorem Tracks.members (tracks : expansion.Tracks base below) {properties : List Property}
    {members : List (String × (Bool × TreeNode))} (known : ∀ p ∈ properties, base.Knows p.type)
    (follows : Behind expansion.models base ahead behind)
    (made : Gives (expansion.members below path .unspecified properties) ahead members after)
    (agree : ∀ m ∈ members, (hint.field m.1).agrees m.2.2 = true)
    (unambiguous : ∀ p ∈ properties,
      (expansion.upon base).Unambiguous p.type (hint.field p.name)) :
    KeepsUp expansion.models base after (expansion.members below path hint properties) behind := by
  induction properties generalizing ahead behind members with
  | nil =>
    obtain ⟨rfl, rfl⟩ := gives_pure_iff.1 made
    exact .pure follows []
  | cons p rest ih =>
    obtain ⟨knownFirst, knownRest⟩ := List.forall_mem_cons.1 known
    obtain ⟨unambiguousFirst, unambiguousRest⟩ := List.forall_mem_cons.1 unambiguous
    unfold Expansion.members at made ⊢
    obtain ⟨decided, _, hdecided, made⟩ := gives_bind_iff.1 made
    obtain ⟨rfl, rfl⟩ := gives_decide_iff.1 hdecided
    obtain ⟨node, middle, head, made⟩ := gives_bind_iff.1 made
    obtain ⟨others, _, tail, made⟩ := gives_bind_iff.1 made
    obtain ⟨rfl, rfl⟩ := gives_pure_iff.1 made
    obtain ⟨agreeFirst, agreeRest⟩ := List.forall_mem_cons.1 agree
    refine KeepsUp.bind (.decide follows p.type p.optional) fun decided' _ follows => ?_
    refine KeepsUp.bind (tracks knownFirst follows head agreeFirst unambiguousFirst _)
      fun node' _ follows => ?_
    refine KeepsUp.bind (ih knownRest follows tail agreeRest unambiguousRest)
      fun others' _ follows => ?_
    exact .pure follows _

theorem Tracks.group (wf : (expansion.upon base).WellFormed) (runs : expansion.Follows below)
    (tracks : expansion.Tracks base below) {properties : List Property}
    (shape : (expansion.upon base).shape declared = .object properties)
    (follows : Behind expansion.models base ahead behind)
    (made : Gives (expansion.group below path .unspecified properties) ahead node after)
    (agree : hint.agrees node = true)
    (unambiguous : (expansion.upon base).Unambiguous declared hint) :
    KeepsUp expansion.models base after (expansion.group below path hint properties) behind := by
  obtain ⟨members, _, made, collected⟩ := gives_bind_iff.1 made
  obtain ⟨rfl, rfl⟩ := gives_pure_iff.1 collected
  obtain ⟨_, _, expands, _⟩ := runs.members follows.ready made
  have names := expands.keys_eq
  have once := unambiguous.once shape
  rw [← names] at once
  unfold Expansion.group
  rw [Hint.strangeField?_of_agrees agree names]
  refine KeepsUp.bind (tracks.members (fun p mem => wf.knows_property shape mem) follows made
    (Hint.agrees_members agree once) fun p mem => unambiguous.field shape mem)
    fun members' _ follows => ?_
  exact .pure follows _

theorem Tracks.array (wf : (expansion.upon base).WellFormed) (tracks : expansion.Tracks base below)
    {element : TypeId} (shape : (expansion.upon base).shape declared = .array element)
    (follows : Behind expansion.models base ahead behind)
    (made : Gives (expansion.array below path .unspecified element) ahead node after)
    (agree : hint.agrees node = true)
    (unambiguous : (expansion.upon base).Unambiguous declared hint) :
    KeepsUp expansion.models base after (expansion.array below path hint element) behind := by
  obtain ⟨decided, _, hdecided, made⟩ := gives_bind_iff.1 made
  obtain ⟨rfl, rfl⟩ := gives_decide_iff.1 hdecided
  obtain ⟨node, _, made, arrayed⟩ := gives_bind_iff.1 made
  obtain ⟨rfl, rfl⟩ := gives_pure_iff.1 arrayed
  refine KeepsUp.bind (.decide follows element false) fun decided' _ follows => ?_
  refine KeepsUp.bind (tracks (wf.knows_element shape) follows made (Hint.agrees_element agree)
    (unambiguous.element shape) _) fun node' _ follows => ?_
  exact .pure follows _

/-- What is planned ahead and is taken apart is made behind along the same text. -/
theorem Tracks.make (wf : (expansion.upon base).WellFormed) (runs : expansion.Follows below)
    (tracks : expansion.Tracks base below) (known : base.Knows declared) {plan : NodePlan}
    (planned : NodePlan.ofClass? ((expansion.upon base).shape declared) hint.kind? = some plan)
    (takenApart : plan ≠ .control) (follows : Behind expansion.models base ahead behind)
    {nullable : Bool}
    (made : Gives (expansion.make below path declared .unspecified nullable plan) ahead node after)
    (agree : hint.agrees node = true)
    (unambiguous : (expansion.upon base).Unambiguous declared hint) (nullable' : Bool) :
    KeepsUp expansion.models base after (expansion.make below path declared hint nullable' plan)
      behind := by
  cases plan with
  | control => exact absurd rfl takenApart
  | group properties =>
    have shape := NodePlan.eq_object_of_ofClass? planned
    exact .withinModel wf known follows made fun follows made =>
      tracks.group wf runs shape follows made agree unambiguous
  | array element =>
    have shape := NodePlan.eq_array_of_ofClass? planned
    exact tracks.array wf shape follows made agree unambiguous

/-- If what lies below is made under every hint that agrees, so is a node.  Unless a control is to
be made, the plan is the one without a hint. -/
theorem Tracks.nodeStep (wf : (expansion.upon base).WellFormed) (runs : expansion.Follows below)
    (tracks : expansion.Tracks base below) : expansion.Tracks base (expansion.nodeStep below) := by
  intro path declared hint nullable ahead after behind node known follows made agree unambiguous
    nullable'
  cases strips : Interning.withoutNullish expansion.models declared ahead.types with
  | mk stripped types =>
  cases strips' : Interning.withoutNullish expansion.models declared behind.types with
  | mk stripped' types' =>
  obtain ⟨grown, class_eq⟩ := over_of_strips wf follows.grown known strips
  obtain ⟨grown', class_eq'⟩ := over_of_strips wf follows.grown' known strips'
  obtain ⟨named, last, expands, fits, whole⟩ := runs.nodeStep follows.ready made
  obtain ⟨room, plan, middle, planned, inner, rfl⟩ := (gives_nodeStep_iff strips).1 made
  by_cases control :
    NodePlan.ofClass? ((expansion.upon base).shape declared) hint.kind? = some .control
  · have grownLast := follows.grown.trans (expands.grown follows.grown known)
    rw [whole]
    exact .control wf known follows room control fits grownLast nullable'
  · have taken : hint.kind? ≠ some .control := fun asks =>
      control (asks ▸ NodePlan.ofClass?_control _)
    obtain ⟨_, again, samekind, _⟩ :=
      (expands.plans wf follows.grown.wellFormed follows.grown.grows known).planned
    rw [← class_eq] at again
    cases planned.symm.trans again
    have hinted := planned_of_agrees wf follows.grown known strips planned samekind agree taken
    have takenApart : plan ≠ .control := fun same => control (same ▸ hinted)
    have inside := (follows.deeper room).withTypes grown grown'
    obtain ⟨node', after', made', follows'⟩ :=
      tracks.make wf runs known hinted takenApart inside inner agree unambiguous nullable'
    rw [← class_eq'] at hinted
    rw [← follows.depth] at room
    exact ⟨node', _, (gives_nodeStep_iff strips').2 ⟨room, plan, after', hinted, made', rfl⟩,
      follows'.leaveLevel⟩

theorem tracks_node (wf : (expansion.upon base).WellFormed) :
    ∀ levels : Nat, expansion.Tracks base (expansion.node levels)
  | 0 => Tracks.nodeStep wf (fun _ _ _ _ _ _ _ _ h => absurd h not_gives_throw)
      fun _ _ _ _ _ _ _ _ _ _ h => absurd h not_gives_throw
  | levels + 1 => Tracks.nodeStep wf (follows_node expansion levels) (tracks_node wf levels)

end

end Expansion

/-! ## Derived forms -/

namespace DerivedForm

open Catalog Expansion

variable {models : Definitions} {mode : Mode} {hint : Hint} {model : TypeId}
  {types after later : TypeTable} {tree : DerivedForm}

/-- A root for which there is a form without a hint is not refused under a hint that agrees with the
form. -/
theorem checkRoot_of_agrees (wf : Catalog.WellFormed ⟨types, models⟩)
    (derives : derive models mode .unspecified model types = (.ok tree, after))
    (agree : hint.agrees tree.root = true) (proper : hint.kind? ≠ some .control)
    (grown : Over models types later) : checkRoot ⟨later, models⟩ hint model = .ok () := by
  obtain ⟨_, _, properties, object⟩ := checkRoot_eq_ok_iff.1 (checkRoot_of_derive derives)
  obtain ⟨members, isGroup⟩ := exists_root_eq_group wf derives
  have heeds := Hint.kind?_of_agrees agree proper
  rw [isGroup] at heeds
  refine checkRoot_eq_ok_iff.2 ⟨proper, fun asks => ?_, properties, ?_⟩
  · rw [asks] at heeds
    rcases heeds with heeds | heeds <;> cases heeds
  · rw [grown.catalog.classify_eq wf (knows_of_derive derives)]
    exact object

/-- Under a hint that agrees with the form that a model has without a hint, the model has a form
too, in every later table.  In a table that both derivations have led to, it is the first form,
with a control in the place of each node that the hint asks for one at. -/
theorem derive_of_agrees (wf : Catalog.WellFormed ⟨types, models⟩)
    (derives : derive models mode .unspecified model types = (.ok tree, after))
    (agree : hint.agrees tree.root = true) (proper : hint.kind? ≠ some .control)
    (unambiguous : Catalog.Unambiguous ⟨types, models⟩ model hint)
    (grown : Over models types later) :
    ∃ tree' after', derive models mode hint model later = (.ok tree', after')
      ∧ tree'.mode = tree.mode ∧ tree'.model = tree.model ∧ Over models later after'
      ∧ ∀ last, Over models after last → Over models after' last →
        tree'.root
          = tree.root.collapse (Catalog.controlAt ⟨types, models⟩ mode last model) hint := by
  have known := knows_of_derive derives
  have start : Behind models types (.start types) (.start later) :=
    ⟨⟨rfl, rfl, rfl, Nat.le_refl _⟩, rfl, ready_start types, ⟨wf, .refl types⟩, grown⟩
  obtain ⟨sameMode, sameModel, _, gives, rfl⟩ :=
    (derive_eq_ok_iff_gives (checkRoot_of_derive derives)).1 derives
  obtain ⟨root', _, gives', follows⟩ :=
    tracks_node wf WalkKind.expansion.maxDepth known start gives agree unambiguous false
  obtain ⟨named, left, expands, _, rfl⟩ := follows_node _ _ (ready_start types) gives
  obtain ⟨named', left', expands', _, rfl⟩ := follows_node _ _ (ready_start later) gives'
  have root := checkRoot_of_agrees wf derives agree proper grown
  refine ⟨⟨root', mode, model⟩, left', ?_, sameMode.symm, sameModel.symm,
    expands'.grown grown known, fun last further further' => ?_⟩
  · exact (derive_eq_ok_iff_gives root).2 ⟨rfl, rfl, _, gives', rfl⟩
  · exact expands.eq_collapse wf ⟨wf, .refl types⟩ known rfl grown expands' agree unambiguous
      (fun asks => absurd asks proper) further further'

/-- A traveller has a name, and a home or none. -/
def traveller : Catalog where
  types.entries := [.object [⟨"street", .ofIntrinsic .string, false⟩],
    .union [TypeId.null, ⟨100⟩],
    .object [⟨"name", .ofIntrinsic .string, false⟩, ⟨"home", ⟨101⟩, true⟩]]
  types.names := .builtin
  models := .empty

/-- The form over a traveller. -/
def ofTraveller : DerivedForm where
  root := .group [("name", (false, .control (.ofIntrinsic .string))),
    ("home", (true, .group [("street", (false, .control (.ofIntrinsic .string)))]))]
  mode := ⟨.declared, .declared⟩
  model := ⟨102⟩

/-- Of a traveller, the home collapses to a control that may be `null`. -/
theorem derive_of_agrees_traveller :
    derive traveller.models ⟨.declared, .declared⟩ .unspecified ⟨102⟩ traveller.types
        = (.ok ofTraveller, traveller.types)
      ∧ ∃ tree after, derive traveller.models ⟨.declared, .declared⟩
            (.fields [("home", .kind .control)]) ⟨102⟩ traveller.types
          = (.ok tree, after)
        ∧ tree.root = .group [("name", (false, .control (.ofIntrinsic .string))),
          ("home", (true, .control ⟨101⟩))] := by
  have derives : derive traveller.models ⟨.declared, .declared⟩ .unspecified ⟨102⟩ traveller.types
      = (.ok ofTraveller, traveller.types) := rfl
  have wf : traveller.WellFormed := by decide
  have grown : Over traveller.models traveller.types traveller.types := ⟨wf, .refl _⟩
  have unambiguous : traveller.Unambiguous ⟨102⟩ (.fields [("home", .kind .control)]) :=
    .of_distinctNames wf (by decide) _ _
  obtain ⟨tree, after, again, _, _, further, alike⟩ :=
    derive_of_agrees wf derives rfl (by decide) unambiguous grown
  have same := alike after further ⟨further.wellFormed, .refl after⟩
  have unchanged : after = traveller.types := (congrArg Prod.snd again).symm.trans rfl
  subst unchanged
  exact ⟨derives, tree, traveller.types, again, same⟩

/-- An object that has a text and then a group of one name.  The group is the one that counts. -/
def twiceNamed : Catalog where
  types.entries := [.object [⟨"b", .ofIntrinsic .string, false⟩],
    .object [⟨"a", .ofIntrinsic .string, false⟩, ⟨"a", ⟨100⟩, false⟩]]
  types.names := .builtin
  models := .empty

/-- Where a field is declared twice, a hint that agrees with the form may be refused: it applies to
both, and only one of them is there in the form. -/
theorem not_forall_derive_of_agrees :
    ¬ ∀ (catalog : Catalog) (mode : Mode) (hint : Hint) (model : TypeId) (tree : DerivedForm)
        (after : TypeTable), catalog.WellFormed →
      derive catalog.models mode .unspecified model catalog.types = (.ok tree, after) →
      hint.agrees tree.root = true → hint.kind? ≠ some .control →
        ∃ tree' after', derive catalog.models mode hint model catalog.types
          = (.ok tree', after') := by
  intro holds
  have derives : derive twiceNamed.models ⟨.never, .never⟩ .unspecified ⟨101⟩ twiceNamed.types
      = (.ok ⟨.group [("a", (false, .group [("b", (false, .control (.ofIntrinsic .string)))]))],
        ⟨.never, .never⟩, ⟨101⟩⟩, twiceNamed.types) := rfl
  obtain ⟨tree', after', again⟩ := holds twiceNamed ⟨.never, .never⟩ (.fields [("a", .kind .group)])
    ⟨101⟩ _ _ (by decide) derives rfl (by decide)
  have refused : derive twiceNamed.models ⟨.never, .never⟩ (.fields [("a", .kind .group)]) ⟨101⟩
      twiceNamed.types
      = (.error (.hintMismatch (.field .root "a") .group "string"), twiceNamed.types) := rfl
  rw [refused] at again
  cases again

end DerivedForm

end ModelForms
