import ModelForms.Proofs.Lockstep
import ModelForms.Proofs.Tree.Exactness
import ModelForms.Proofs.Tree.Plans
import ModelForms.Proofs.Tree.Visits
import ModelForms.Proofs.Types.Terms

/-!
# Modes and structure

The mode decides which values may be `null` and which members may be absent.  It has no part in
which positions there are, of which kind they are, or whether there is a form at all: under any two
modes a model has forms with one skeleton, or it has none for the same reason
(`DerivedForm.skeleton_eq`).

Two expansions are compared that differ in their modes.  Their tables do not stay the same, since
the types of controls are added as the mode decides.  What the expansions read of them is the same:
both tables have grown from one, so a position has one shape, one text and one named model in both,
and the guards and counters are equal (`Abreast`).  So the expansions run in lockstep, rule by rule
along the text of `Expansion.node`.
-/

namespace ModelForms

/-! ## Skeletons -/

namespace TreeNode

mutual

/-- A tree without the types of its controls' values and without what may be absent. -/
def skeleton : TreeNode → TreeNode
  | .control _ => .control TypeId.unknown
  | .group members => .group (skeletonMembers members)
  | .array element => .array (skeleton element)
termination_by structural node => node

/-- The members of a group, each as its skeleton. -/
def skeletonMembers : List (String × (Bool × TreeNode)) → List (String × (Bool × TreeNode))
  | [] => []
  | (name, (_, node)) :: rest => (name, (false, skeleton node)) :: skeletonMembers rest
termination_by structural members => members

end

theorem skeletonMembers_eq_map (members : List (String × (Bool × TreeNode))) :
    skeletonMembers members = members.map fun m => (m.1, (false, m.2.2.skeleton)) := by
  induction members with
  | nil => rfl
  | cons first rest ih => exact congrArg ((first.1, (false, first.2.2.skeleton)) :: ·) ih

theorem skeletonMembers_collect (members : List (String × (Bool × TreeNode))) :
    skeletonMembers (Entries.collect members) = Entries.collect (skeletonMembers members) := by
  rw [skeletonMembers_eq_map, skeletonMembers_eq_map]
  exact (Entries.collect_map (fun _ (m : Bool × TreeNode) => (false, m.2.skeleton)) members).symm

end TreeNode

/-! ## Tables that have grown from one -/

/-- What is left of a type is planned in the same way in all tables that have grown from one, and
refused for the same reason. -/
theorem Catalog.StrippedTo.plan_eq {base left right : Catalog} {declared stripped stripped' : TypeId}
    (wf : base.WellFormed) (known : base.types.Knows declared) (toLeft : base.GrowsTo left)
    (wfLeft : left.WellFormed) (toRight : base.GrowsTo right) (wfRight : right.WellFormed)
    (strips : left.StrippedTo declared stripped) (strips' : right.StrippedTo declared stripped')
    (hint : Hint) (path : FieldPath) :
    right.plan stripped' hint path = left.plan stripped hint path := by
  have class_eq : right.classify stripped' = left.classify stripped := by
    rw [classify_of_strippedTo wfRight strips', classify_of_strippedTo wfLeft strips,
      toLeft.shape_eq wf known, toRight.shape_eq wf known]
  have text_eq : right.typeText stripped' = left.typeText stripped := by
    rw [strips'.typeText_eq toRight wf wfRight known, strips.typeText_eq toLeft wf wfLeft known]
  unfold plan
  rw [class_eq, text_eq, toRight.models, toLeft.models]

namespace Expansion

open Catalog

/-- Two states of expansions that differ only in what their tables have added to one. -/
structure Abreast (models : Definitions) (base : TypeTable) (left right : ExpansionState) :
    Prop where
  guard : right.guard = left.guard
  depth : right.depth = left.depth
  left : Over models base left.types
  right : Over models base right.types

variable {models : Definitions} {base : TypeTable}

namespace Abreast

variable {left right : ExpansionState}

theorem withTypes (abreast : Abreast models base left right) {types types' : TypeTable}
    (grown : Over models base types) (grown' : Over models base types') :
    Abreast models base (left.withTypes types) (right.withTypes types') :=
  ⟨abreast.guard, abreast.depth, grown, grown'⟩

end Abreast

theorem run_intern_bind {α β : Type} (action : Interning α) (next : α → Expanding β)
    (state : ExpansionState) :
    (intern action >>= next).run.run state =
      (next (action state.types).1).run.run (state.withTypes (action state.types).2) :=
  rfl

theorem run_catalog_bind {β : Type} (expansion : Expansion) (next : Catalog → Expanding β)
    (state : ExpansionState) :
    (expansion.catalog >>= next).run.run state =
      (next (expansion.upon state.types)).run.run state :=
  rfl

/-! ## Lockstep -/

/-- Two nodes have one skeleton. -/
def SameSkeleton (left right : TreeNode) : Prop := left.skeleton = right.skeleton

/-- Two ways of making nodes run in lockstep wherever the declared type is known, whatever may be
`null`. -/
def MakeAlike (models : Definitions) (base : TypeTable) (below below' : Maker) : Prop :=
  ∀ (path : FieldPath) (declared : TypeId) (hint : Hint) (nullable nullable' : Bool),
    base.Knows declared → Lockstep (Abreast models base) SameSkeleton
      (below path declared hint nullable) (below' path declared hint nullable')

variable {mode mode' : Mode} {action action' : Expanding TreeNode} {path : FieldPath}

/-- What the two modes decide may differ, and no state does. -/
theorem lockstep_decide (type : TypeId) (optional : Bool) :
    Lockstep (Abreast models base) (fun _ _ => True) (decide ⟨models, mode⟩ type optional)
      (decide ⟨models, mode'⟩ type optional) :=
  fun _ _ abreast => .ok trivial abreast

theorem lockstep_thenAlways {change : ExpansionState → ExpansionState}
    (h : Lockstep (Abreast models base) SameSkeleton action action')
    (keeps : ∀ s t, Abreast models base s t → Abreast models base (change s) (change t)) :
    Lockstep (Abreast models base) SameSkeleton (thenAlways action change)
      (thenAlways action' change) := by
  intro s t abreast
  show EndAlike _ _ ((action.run.run s).1, change (action.run.run s).2)
    ((action'.run.run t).1, change (action'.run.run t).2)
  have ends := h abreast
  generalize action.run.run s = outcome at ends ⊢
  generalize action'.run.run t = outcome' at ends ⊢
  cases ends with
  | ok alike abreast => exact .ok alike (keeps _ _ abreast)
  | error abreast => exact .error (keeps _ _ abreast)

theorem lockstep_withinLevel (h : Lockstep (Abreast models base) SameSkeleton action action') :
    Lockstep (Abreast models base) SameSkeleton (withinLevel path action)
      (withinLevel path action') := by
  unfold withinLevel
  refine Lockstep.bind (.modifyGet fun s t abreast => ?_) fun entered entered' same => ?_
  · exact ⟨congrArg (fun depth : Depth => depth.enter.1) abreast.depth.symm, abreast.guard,
      congrArg (fun depth : Depth => depth.enter.2) abreast.depth, abreast.left, abreast.right⟩
  · subst same
    cases entered with
    | true =>
      exact lockstep_thenAlways h fun s t abreast =>
        ⟨abreast.guard, congrArg Depth.leave abreast.depth, abreast.left, abreast.right⟩
    | false =>
      exact .throwOf fun s t abreast =>
        congrArg (fun depth : Depth => DerivationError.tooDeep path depth.maxLevel)
          abreast.depth.symm

theorem lockstep_withinModel (wf : Catalog.WellFormed ⟨base, models⟩) {declared : TypeId}
    (known : base.Knows declared) {hint : Hint}
    (h : Lockstep (Abreast models base) SameSkeleton action action') :
    Lockstep (Abreast models base) SameSkeleton
      (withinModel ⟨models, mode⟩ path declared hint action)
      (withinModel ⟨models, mode'⟩ path declared hint action') := by
  intro s t abreast
  have names : Catalog.namedModel? ⟨s.types, models⟩ declared
      = Catalog.namedModel? ⟨t.types, models⟩ declared :=
    (abreast.left.catalog.namedModel?_eq wf known).trans
      (abreast.right.catalog.namedModel?_eq wf known).symm
  unfold withinModel
  rw [run_catalog_bind, run_catalog_bind, Expansion.upon, Expansion.upon, ← names]
  cases Catalog.namedModel? ⟨s.types, models⟩ declared with
  | none => exact h abreast
  | some definition =>
    refine Lockstep.bind (.modifyGet fun s t abreast => ?_) (fun admission admission' same => ?_)
      abreast
    · exact ⟨congrArg (fun guard : Guard ModelId => (guard.enter definition).1) abreast.guard.symm,
        congrArg (fun guard : Guard ModelId => (guard.enter definition).2) abreast.guard,
        abreast.depth, abreast.left, abreast.right⟩
    · subst same
      cases admission with
      | entered =>
        exact lockstep_thenAlways h fun s t abreast =>
          ⟨congrArg (Guard.leave definition) abreast.guard, abreast.depth, abreast.left,
            abreast.right⟩
      | cycle =>
        cases hint.describesBelow with
        | true => exact h
        | false => exact .throw _
      | tooDeep | tooMany =>
        exact .throwOf fun s t abreast =>
          congrArg (fun guard : Guard ModelId => DerivationError.tooDeep path guard.maxDepth)
            abreast.guard.symm

theorem lockstep_members {below below' : Maker} (alike : MakeAlike models base below below')
    {hint : Hint} {properties : List Property} (known : ∀ p ∈ properties, base.Knows p.type) :
    Lockstep (Abreast models base)
      (fun members members' =>
        TreeNode.skeletonMembers members = TreeNode.skeletonMembers members')
      (members ⟨models, mode⟩ below path hint properties)
      (members ⟨models, mode'⟩ below' path hint properties) := by
  induction properties with
  | nil => exact .pure rfl
  | cons p rest ih =>
    obtain ⟨knownFirst, knownRest⟩ := List.forall_mem_cons.1 known
    unfold members
    refine Lockstep.bind (lockstep_decide p.type p.optional) fun decided decided' _ => ?_
    refine Lockstep.bind (alike _ _ _ _ _ knownFirst) fun node node' same => ?_
    refine Lockstep.bind (ih knownRest) fun others others' sameRest => .pure ?_
    show (p.name, (false, node.skeleton)) :: TreeNode.skeletonMembers others
      = (p.name, (false, node'.skeleton)) :: TreeNode.skeletonMembers others'
    rw [same, sameRest]

theorem lockstep_group {below below' : Maker} (alike : MakeAlike models base below below')
    {hint : Hint} {properties : List Property} (known : ∀ p ∈ properties, base.Knows p.type) :
    Lockstep (Abreast models base) SameSkeleton (group ⟨models, mode⟩ below path hint properties)
      (group ⟨models, mode'⟩ below' path hint properties) := by
  unfold group
  cases strangeField? properties hint with
  | some field => exact .throw _
  | none =>
    refine Lockstep.bind (lockstep_members alike known) fun members members' same => .pure ?_
    show TreeNode.group (TreeNode.skeletonMembers (Entries.collect members))
      = TreeNode.group (TreeNode.skeletonMembers (Entries.collect members'))
    rw [TreeNode.skeletonMembers_collect, TreeNode.skeletonMembers_collect, same]

theorem lockstep_array {below below' : Maker} (alike : MakeAlike models base below below')
    {hint : Hint} {element : TypeId} (known : base.Knows element) :
    Lockstep (Abreast models base) SameSkeleton (array ⟨models, mode⟩ below path hint element)
      (array ⟨models, mode'⟩ below' path hint element) := by
  unfold array
  refine Lockstep.bind (lockstep_decide element false) fun decided decided' _ => ?_
  refine Lockstep.bind (alike _ _ _ _ _ known) fun node node' same => .pure ?_
  exact congrArg TreeNode.array same

/-- A position is planned in the same way in both expansions, so its node is made in lockstep. -/
theorem MakeAlike.nodeStep (wf : Catalog.WellFormed ⟨base, models⟩) {below below' : Maker}
    (alike : MakeAlike models base below below') :
    MakeAlike models base (nodeStep ⟨models, mode⟩ below) (nodeStep ⟨models, mode'⟩ below') := by
  intro path declared hint nullable nullable' known
  refine lockstep_withinLevel fun s t abreast => ?_
  obtain ⟨grown, strips, shape⟩ := abreast.left.withoutNullish wf known
  obtain ⟨grown', strips', _⟩ := abreast.right.withoutNullish wf known
  have plan_eq := strips.plan_eq wf known grown.catalog grown.wellFormed grown'.catalog
    grown'.wellFormed strips' hint path
  rw [run_intern_bind, run_intern_bind, run_catalog_bind, run_catalog_bind]
  have abreast := abreast.withTypes grown grown'
  dsimp only [upon, ExpansionState.withTypes] at abreast ⊢
  rw [plan_eq]
  cases planned : Catalog.plan ⟨(Interning.withoutNullish models declared s.types).2, models⟩
    (Interning.withoutNullish models declared s.types).1 hint path with
  | error error => exact .error abreast
  | ok plan =>
    have planned := Catalog.plan_eq_ok_iff.1 planned
    cases plan with
    | control =>
      exact .ok rfl (abreast.withTypes (grown.controlType known nullable).1
        (grown'.controlType known nullable').1)
    | group properties =>
      have object := shape.symm.trans (NodePlan.eq_object_of_ofClass? planned)
      exact lockstep_withinModel wf known
        (lockstep_group alike fun p hp => wf.knows_property object hp) abreast
    | array element =>
      have isArray := shape.symm.trans (NodePlan.eq_array_of_ofClass? planned)
      exact lockstep_array alike (wf.knows_element isArray) abreast

/-- Nodes are made in lockstep over any number of levels. -/
theorem makeAlike_node (wf : Catalog.WellFormed ⟨base, models⟩) (mode mode' : Mode) :
    ∀ levels : Nat, MakeAlike models base (node ⟨models, mode⟩ levels) (node ⟨models, mode'⟩ levels)
  | 0 => MakeAlike.nodeStep wf fun _ _ _ _ _ _ => .throw _
  | levels + 1 => MakeAlike.nodeStep wf (makeAlike_node wf mode mode' levels)

end Expansion

/-! ## Derived forms -/

namespace DerivedForm

open Catalog Expansion

variable {models : Definitions} {types later : TypeTable} {hint : Hint} {model : TypeId}

/-- A root is refused for the same reason in every later table. -/
theorem checkRoot_eq_of_over (wf : Catalog.WellFormed ⟨types, models⟩)
    (grown : Over models types later) (known : types.Knows model) :
    checkRoot ⟨later, models⟩ hint model = checkRoot ⟨types, models⟩ hint model := by
  unfold checkRoot
  rw [grown.catalog.classify_eq wf known, grown.catalog.typeText_eq wf known]

/-- Under two modes, forms over a known root are expanded in lockstep. -/
theorem endAlike_expand (wf : Catalog.WellFormed ⟨types, models⟩) (grown : Over models types later)
    (known : types.Knows model) (mode mode' : Mode) :
    EndAlike (Abreast models types) SameSkeleton (expand models mode hint model types)
      (expand models mode' hint model later) := by
  have start : Abreast models types (.start types) (.start later) :=
    ⟨rfl, rfl, ⟨wf, .refl types⟩, grown⟩
  unfold expand
  rw [checkRoot_eq_of_over wf grown known]
  cases checkRoot ⟨types, models⟩ hint model with
  | error error => exact .error start
  | ok _ => exact makeAlike_node wf mode mode' _ _ _ _ _ _ known start

theorem map_skeleton_eq_of_over (wf : Catalog.WellFormed ⟨types, models⟩)
    (grown : Over models types later) (known : types.Knows model) (mode mode' : Mode) :
    (derive models mode' hint model later).1.map (fun tree => tree.root.skeleton)
      = (derive models mode hint model types).1.map (fun tree => tree.root.skeleton) := by
  have ends := @endAlike_expand models types later hint model wf grown known mode mode'
  unfold derive
  generalize expand models mode hint model types = outcome at ends ⊢
  generalize expand models mode' hint model later = outcome' at ends ⊢
  cases ends with
  | ok same => exact congrArg Except.ok same.symm
  | error => rfl

/-- A derivation leaves a well-formed table that has grown, whether it fails or not. -/
theorem over_derive (wf : Catalog.WellFormed ⟨types, models⟩) (known : types.Knows model)
    (mode : Mode) : Over models types (derive models mode hint model types).2 :=
  (endAlike_expand wf ⟨wf, .refl types⟩ known mode mode).abreast.left

/-- Under any two modes a model has forms with one skeleton, or it has none for the same reason.  It
makes no difference whether the second form is derived in the table that the first one was derived
in, or in the table that the first derivation leaves. -/
theorem skeleton_eq (wf : Catalog.WellFormed ⟨types, models⟩) (mode mode' : Mode) (hint : Hint)
    (model : TypeId) :
    (derive models mode' hint model types).1.map (fun tree => tree.root.skeleton)
        = (derive models mode hint model types).1.map (fun tree => tree.root.skeleton)
      ∧ (derive models mode' hint model (derive models mode hint model types).2).1.map
          (fun tree => tree.root.skeleton)
        = (derive models mode hint model types).1.map (fun tree => tree.root.skeleton) := by
  cases root : checkRoot ⟨types, models⟩ hint model with
  | error error =>
    have refused (mode : Mode) : derive models mode hint model types = (.error error, types) := by
      unfold derive expand
      rw [root]
      rfl
    simp only [refused, and_self]
  | ok _ =>
    obtain ⟨_, _, _, object⟩ := checkRoot_eq_ok_iff.1 root
    have known : types.Knows model := Catalog.knows_of_classify_eq_object object
    exact ⟨map_skeleton_eq_of_over wf ⟨wf, .refl types⟩ known mode mode',
      map_skeleton_eq_of_over wf (over_derive wf known mode) known mode mode'⟩

/-- The form over a person under two modes: one has a type for a name that may be `null`, and the
other has not. -/
theorem skeleton_eq_person :
    (derive Catalog.person.models ⟨.always, .never⟩ personHint ⟨103⟩
        (derive Catalog.person.models ⟨.never, .always⟩ personHint ⟨103⟩ Catalog.person.types).2).1.map
        (fun tree => tree.root.skeleton)
      = .ok (.group [("name", (false, .control TypeId.unknown)),
        ("friends", (false, .array (.control TypeId.unknown)))]) :=
  (skeleton_eq (by decide) ⟨.never, .always⟩ ⟨.always, .never⟩ personHint ⟨103⟩).2.trans rfl

end DerivedForm

end ModelForms
