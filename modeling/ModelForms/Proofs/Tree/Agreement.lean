import Mathlib.Data.List.Forall2
import ModelForms.Proofs.Tree.Exactness
import ModelForms.Proofs.Tree.Plans

/-!
# Types that agree

Two types, of one catalog or of two, are declared alike if neither includes `undefined` without the
other and they are the same kind of thing: objects with the same properties, arrays, types that are
never taken apart, or types that are controls unasked.  The parts are to agree in turn.  Which types
agree is given by a relation, which may relate types that contain themselves.  `Catalog.Agree` says
that it relates nothing but types that are declared alike.

For types that agree the same trees are planned (`Catalog.Plans.agree`).  So the forms over two
roots that agree have the same outline (`DerivedForm.derive_of_agree`): which models a guard holds
on the two sides does not matter, since a form is there exactly if the rules give it.  What is left
of the guard is the limit on the number of groups.
-/

namespace ModelForms

/-- Two properties of one name and flag whose types are related. -/
structure Property.Agree (related : TypeId → TypeId → Prop) (p q : Property) : Prop where
  name : p.name = q.name
  optional : p.optional = q.optional
  type : related p.type q.type

namespace Catalog

/-- Whether a type is a control that no hint makes anything else of. -/
def TypeClass.isPlain : TypeClass → Bool
  | .primitive _ | .literal _ | .union _ => true
  | _ => false

/-- Two types are the same kind of thing, with related parts. -/
inductive TypeClass.Agree (related : TypeId → TypeId → Prop) : TypeClass → TypeClass → Prop
  | object {properties others : List Property}
      (parts : List.Forall₂ (Property.Agree related) properties others) :
      Agree related (.object properties) (.object others)
  | array {element other : TypeId} (part : related element other) :
      Agree related (.array element) (.array other)
  | atomic (name other : Option String) : Agree related (.atomic name) (.atomic other)
  | plain {type other : TypeClass} (left : type.isPlain = true) (right : other.isPlain = true) :
      Agree related type other

namespace TypeClass.Agree

variable {related : TypeId → TypeId → Prop} {type other : TypeClass}

theorem isPlain_eq (agree : TypeClass.Agree related type other) : type.isPlain = other.isPlain := by
  cases agree with
  | object | array | atomic => rfl
  | plain left right => rw [left, right]

theorem symm (agree : TypeClass.Agree related type other) :
    TypeClass.Agree (fun d d' => related d' d) other type := by
  cases agree with
  | object parts =>
    exact .object (parts.flip.imp fun _ _ h => ⟨h.name.symm, h.optional.symm, h.type⟩)
  | array part => exact .array part
  | atomic => exact .atomic _ _
  | plain left right => exact .plain right left

end TypeClass.Agree

/-- Two types that are declared alike: both of them include `undefined` or neither, and with `null`
and `undefined` set aside they are the same kind of thing. -/
structure Alike (catalog other : Catalog) (related : TypeId → TypeId → Prop) (d d' : TypeId) :
    Prop where
  absence : TypeId.undefined ∈ catalog.alternatives d ↔ TypeId.undefined ∈ other.alternatives d'
  shape : TypeClass.Agree related (catalog.shape d) (other.shape d')

/-- What is at the ends of two chains of aliases is declared where the chains start. -/
theorem Alike.of_leadsTo {catalog other : Catalog} {related : TypeId → TypeId → Prop}
    {d d' target target' : TypeId} (unbroken : catalog.Unbroken) (unbroken' : other.Unbroken)
    (leads : catalog.LeadsTo d target) (leads' : other.LeadsTo d' target')
    (alike : catalog.Alike other related target target') : catalog.Alike other related d d' := by
  constructor
  · rw [unbroken.alternatives_eq leads, unbroken'.alternatives_eq leads']
    exact alike.absence
  · rw [unbroken.shape_eq leads, unbroken'.shape_eq leads']
    exact alike.shape

/-- A relation of types that are declared alike, position by position. -/
def Agree (catalog other : Catalog) (related : TypeId → TypeId → Prop) : Prop :=
  ∀ d d', related d d' → catalog.Alike other related d d'

theorem Agree.symm {catalog other : Catalog} {related : TypeId → TypeId → Prop}
    (agree : catalog.Agree other related) : other.Agree catalog fun d d' => related d' d :=
  fun d' d h => ⟨(agree d d' h).absence.symm, (agree d d' h).shape.symm⟩

end Catalog

namespace NodePlan

/-- Two plans for nodes of one kind, with related parts. -/
inductive Agree (related : TypeId → TypeId → Prop) : NodePlan → NodePlan → Prop
  | control : Agree related .control .control
  | group {properties others : List Property}
      (parts : List.Forall₂ (Property.Agree related) properties others) :
      Agree related (.group properties) (.group others)
  | array {element other : TypeId} (part : related element other) :
      Agree related (.array element) (.array other)

theorem ofClass?_of_isPlain {type : Catalog.TypeClass} (plain : type.isPlain = true)
    (kind : Option NodeKind) :
    ofClass? type kind = if kind = none ∨ kind = some .control then some .control else none := by
  cases type with
  | primitive | literal | union =>
    match kind with
    | none | some .control | some .group | some .array => rfl
  | atomic | object | array | unresolved => cases plain

/-- Types that agree are planned alike under one hint. -/
theorem agree_of_ofClass? {related : TypeId → TypeId → Prop} {type other : Catalog.TypeClass}
    (agree : Catalog.TypeClass.Agree related type other) {kind : Option NodeKind} {plan : NodePlan}
    (h : ofClass? type kind = some plan) :
    ∃ plan', ofClass? other kind = some plan' ∧ Agree related plan plan' := by
  cases agree with
  | object parts =>
    match kind, h with
    | none, h | some .group, h =>
      cases h
      exact ⟨_, rfl, .group parts⟩
    | some .control, h =>
      cases h
      exact ⟨_, rfl, .control⟩
  | array part =>
    match kind, h with
    | none, h | some .array, h =>
      cases h
      exact ⟨_, rfl, .array part⟩
    | some .control, h =>
      cases h
      exact ⟨_, rfl, .control⟩
  | atomic name name' =>
    match kind, h with
    | none, h | some .group, h | some .array, h | some .control, h =>
      cases h
      exact ⟨_, rfl, .control⟩
  | plain left right =>
    rw [ofClass?_of_isPlain left] at h
    split at h
    next unasked =>
      cases h
      exact ⟨.control, by rw [ofClass?_of_isPlain right, if_pos unasked], .control⟩
    next => cases h

end NodePlan

/-! ## Trees over types that agree -/

namespace Catalog

variable {catalog other : Catalog} {related : TypeId → TypeId → Prop} {mode : Mode}

theorem strangeField?_eq {hint : Hint} {properties others : List Property}
    (parts : List.Forall₂ (Property.Agree related) properties others) :
    Expansion.strangeField? others hint = Expansion.strangeField? properties hint := by
  have same (field : String) :
      others.any (·.name == field) = properties.any (·.name == field) := by
    induction parts with
    | nil => rfl
    | cons agree _ ih => rw [List.any_cons, List.any_cons, ih, agree.name]
  unfold Expansion.strangeField?
  simp only [same]

theorem Agree.decided (agree : catalog.Agree other related) (mode : Mode) {p q : Property}
    (h : Property.Agree related p q) :
    (other.decided mode q.type q.optional).optional
      = (catalog.decided mode p.type p.optional).optional := by
  have same : (catalog.alternatives p.type).contains TypeId.undefined
      = (other.alternatives q.type).contains TypeId.undefined := by
    rw [Bool.eq_iff_iff, List.contains_iff_mem, List.contains_iff_mem]
    exact (agree _ _ h.type).absence
  simp only [Catalog.decided, Mode.decide, declared, h.optional, same]

mutual

/-- What is planned for a declared type is planned for one that agrees. -/
theorem Plans.agree {d : TypeId} {hint : Hint} {node : TreeNode}
    (agree : catalog.Agree other related) :
    catalog.Plans mode d hint node → ∀ d' : TypeId, related d d' → other.Plans mode d' hint node
  | .control plan => fun d' h => by
    obtain ⟨_, plan', same⟩ := NodePlan.agree_of_ofClass? (agree _ _ h).shape plan
    cases same
    exact .control plan'
  | .group plan fields below => fun d' h => by
    obtain ⟨_, plan', same⟩ := NodePlan.agree_of_ofClass? (agree _ _ h).shape plan
    cases same with
    | group parts => exact .group plan' ((strangeField?_eq parts).trans fields) (below.agree agree _ parts)
  | .array plan below => fun d' h => by
    obtain ⟨_, plan', same⟩ := NodePlan.agree_of_ofClass? (agree _ _ h).shape plan
    cases same with
    | array part => exact .array plan' (below.agree agree _ part)

theorem PlansMembers.agree {hint : Hint} {properties : List Property}
    {members : List (String × (Bool × TreeNode))} (agree : catalog.Agree other related) :
    catalog.PlansMembers mode hint properties members →
      ∀ others, List.Forall₂ (Property.Agree related) properties others →
        other.PlansMembers mode hint others members
  | .nil => fun others parts => by
    cases parts
    exact .nil
  | .cons decides head tail => fun others parts => by
    cases parts with
    | cons part rest =>
      have same := agree.decided mode part
      have headAgree := head.agree agree _ part.type
      rw [part.name] at headAgree ⊢
      exact .cons (same.trans decides) headAgree (tail.agree agree _ rest)

end

end Catalog

/-! ## Forms over types that agree -/

namespace TreeNode

mutual

/-- The number of groups in a tree. -/
def groups : TreeNode → Nat
  | .control _ => 0
  | .group members => groupsOfMembers members + 1
  | .array element => groups element
termination_by structural node => node

/-- The number of groups in the members of a group. -/
def groupsOfMembers : List (String × (Bool × TreeNode)) → Nat
  | [] => 0
  | (_, (_, node)) :: rest => groups node + groupsOfMembers rest
termination_by structural members => members

end

mutual

theorem height_outline : (node : TreeNode) → node.outline.height = node.height
  | .control _ => rfl
  | .group members => congrArg (· + 1) (heightOfMembers_outlineMembers members)
  | .array element => congrArg (· + 1) (height_outline element)

theorem heightOfMembers_outlineMembers : (members : List (String × (Bool × TreeNode))) →
    heightOfMembers (outlineMembers members) = heightOfMembers members
  | [] => rfl
  | (_, (_, node)) :: rest => by
    rw [outlineMembers, heightOfMembers, heightOfMembers, height_outline node,
      heightOfMembers_outlineMembers rest]

end

mutual

theorem groups_outline : (node : TreeNode) → node.outline.groups = node.groups
  | .control _ => rfl
  | .group members => congrArg (· + 1) (groupsOfMembers_outlineMembers members)
  | .array element => groups_outline element

theorem groupsOfMembers_outlineMembers : (members : List (String × (Bool × TreeNode))) →
    groupsOfMembers (outlineMembers members) = groupsOfMembers members
  | [] => rfl
  | (_, (_, node)) :: rest => by
    rw [outlineMembers, groupsOfMembers, groupsOfMembers, groups_outline node,
      groupsOfMembers_outlineMembers rest]

end

end TreeNode

namespace Expansion

variable {expansion : Expansion}

theorem namedCount_le_one (catalog : Catalog) (declared : TypeId) :
    namedCount catalog declared ≤ 1 := by
  unfold namedCount
  split <;> omega

mutual

/-- No more groups stand for a model than there are groups. -/
theorem Expands.named_le_groups {types after : TypeTable} {declared : TypeId} {hint : Hint}
    {nullable : Bool} {node : TreeNode} {named : Nat} (wf : (expansion.upon types).WellFormed)
    (distinct : types.DistinctNames) (known : types.Knows declared) :
    expansion.Expands types declared hint nullable node named after → named ≤ node.groups
  | .control _ _ _ => Nat.zero_le _
  | .group strips plan _ below => by
    obtain ⟨wf', adds, class_eq⟩ := stripped_spec strips wf known
    have shape := class_eq.symm.trans (NodePlan.eq_object_of_ofClass? plan)
    have distinct' := distinct.addsUnions adds
    have names := wf'.nodup_names distinct' shape
    have parts := below.named_le_groups wf' distinct' fun p hp => wf'.knows_property shape hp
    rw [Entries.collect_eq_self (below.keys_eq ▸ names), TreeNode.groups, Nat.add_comm]
    exact Nat.add_le_add parts (namedCount_le_one _ _)
  | .array strips plan below => by
    obtain ⟨wf', adds, class_eq⟩ := stripped_spec strips wf known
    have shape := class_eq.symm.trans (NodePlan.eq_array_of_ofClass? plan)
    have part := below.named_le_groups wf' (distinct.addsUnions adds) (wf'.knows_element shape)
    exact part

theorem ExpandsMembers.named_le_groups {types after : TypeTable} {hint : Hint}
    {properties : List Property} {members : List (String × (Bool × TreeNode))} {named : Nat}
    (wf : (expansion.upon types).WellFormed) (distinct : types.DistinctNames)
    (known : ∀ p ∈ properties, types.Knows p.type) :
    expansion.ExpandsMembers types hint properties members named after →
      named ≤ TreeNode.groupsOfMembers members
  | .nil => Nat.zero_le _
  | .cons _ head tail => by
    have knownFirst := known _ List.mem_cons_self
    have settled := head.settles wf knownFirst
    have first := head.named_le_groups wf distinct knownFirst
    have others := tail.named_le_groups settled.wellFormed (distinct.addsUnions settled.adds)
      fun p hp => settled.adds.growsTo.knows (known p (List.mem_cons_of_mem _ hp))
    exact Nat.add_le_add first others

end

end Expansion

namespace DerivedForm

open Expansion

/-- Over a root that agrees with another there is a form of the outline that the form over the other
has, if it has no more groups than models may be entered. -/
theorem derive_of_agree {models models' : Definitions} {types types' after : TypeTable}
    {related : TypeId → TypeId → Prop} {mode : Mode} {hint : Hint} {model model' : TypeId}
    {tree : DerivedForm} (wf : Catalog.WellFormed ⟨types, models⟩)
    (wf' : Catalog.WellFormed ⟨types', models'⟩) (distinct' : types'.DistinctNames)
    (agree : Catalog.Agree ⟨types, models⟩ ⟨types', models'⟩ related) (root : related model model')
    (rootClass : Catalog.TypeClass.Agree related (Catalog.classify ⟨types, models⟩ model)
      (Catalog.classify ⟨types', models'⟩ model'))
    (derives : derive models mode hint model types = (.ok tree, after))
    (few : tree.root.groups ≤ Limits.expansionSteps) :
    ∃ tree' after', derive models' mode hint model' types' = (.ok tree', after')
      ∧ tree'.root.outline = tree.root.outline := by
  obtain ⟨_, _, _, expands, height, _⟩ := expands_of_derive derives
  obtain ⟨noControl, noArray, _, object⟩ := checkRoot_eq_ok_iff.1 (checkRoot_of_derive derives)
  have object' : ∃ others, Catalog.classify ⟨types', models'⟩ model' = .object others := by
    generalize Catalog.classify ⟨types', models'⟩ model' = other at rootClass ⊢
    rw [object] at rootClass
    cases rootClass with
    | object => exact ⟨_, rfl⟩
    | plain left => cases left
  obtain ⟨others, object'⟩ := object'
  have known' : types'.Knows model' := Catalog.knows_of_classify_eq_object object'
  have plans := expands.plans wf wf (.refl types) (knows_of_derive derives)
  obtain ⟨node', named', after', expands', same⟩ :=
    @Catalog.Plans.expands ⟨models', mode⟩ _ _ _ _ wf' known' (plans.agree agree _ root) types'
      false wf' (.refl types')
  have height' : node'.height ≤ Limits.modelDepth := by
    rw [← TreeNode.height_outline, same, TreeNode.height_outline]
    exact height
  have few' : named' ≤ Limits.expansionSteps := by
    have := expands'.named_le_groups wf' distinct' known'
    rw [← TreeNode.groups_outline, same, TreeNode.groups_outline] at this
    omega
  exact ⟨⟨node', mode, model'⟩, after',
    derive_of_expands wf' distinct' object' noControl noArray expands' height' few', same⟩

end DerivedForm

end ModelForms
