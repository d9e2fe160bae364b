import Mathlib.Data.List.Nodup
import ModelForms.Proofs.Tree.HonouredHints

/-!
# Collapsed trees

A hint that agrees with a tree (`Hint.agrees`) changes the tree in one way: where it asks for a
control, a control stands in the place of what was there (`TreeNode.collapse`).  The type of its
value is that of the declared type there (`Catalog.controlAt`), which no hint has a part in.

`Expansion.Expands.eq_collapse` says so of the rules.  Both expansions may start in tables that
other expansions have added to, so the types of their controls are compared in a table that both
have grown into: there a declared type has one type of control (`Over.controlType_eq`).

A position of a tree is named by its fields, so it is settled what a hint for a field speaks of only
where the field is declared once.  `Catalog.Unambiguous` asks for that at the fields that a hint
names, and nowhere else.
-/

namespace ModelForms

/-! ## Hints that agree with a tree -/

namespace Hint

mutual

/-- Whether what a hint speaks of is there in a tree.  A hint for a group or an array stands at one,
the fields and elements that are spoken of are there, and a hint for a control may stand
anywhere. -/
def agrees : Hint → TreeNode → Bool
  | .unspecified, _ => true
  | .kind asked, node => asked = .control || asked = node.kind
  | .fields hints, node => node.kind = .group && fieldsAgree hints node
  | .elements below, node => node.element?.any fun element => agrees below element
termination_by structural hint => hint

/-- Whether a node has the members that some hints are for, and the hints agree with them. -/
def fieldsAgree : List (String × Hint) → TreeNode → Bool
  | [], _ => true
  | (name, hint) :: rest, node =>
      ((node.member? name).any fun member => agrees hint member.2) && fieldsAgree rest node
termination_by structural hints => hints

end

variable {hint : Hint} {node : TreeNode}

theorem agrees_unspecified (node : TreeNode) : Hint.unspecified.agrees node = true := rfl

/-- A hint that agrees asks for nothing or for what is there, unless it asks for a control. -/
theorem kind?_of_agrees (agree : hint.agrees node = true) (taken : hint.kind? ≠ some .control) :
    hint.kind? = none ∨ hint.kind? = some node.kind := by
  cases hint with
  | unspecified => exact Or.inl rfl
  | kind asked =>
    have either : asked = .control ∨ asked = node.kind := by simpa [agrees] using agree
    exact Or.inr (congrArg some (either.resolve_left fun same => taken (congrArg some same)))
  | fields hints =>
    have both : node.kind = .group ∧ fieldsAgree hints node = true := by
      simpa [agrees] using agree
    exact Or.inr (congrArg some both.1.symm)
  | elements below =>
    cases node with
    | array => exact Or.inr rfl
    | control | group => simp [agrees, TreeNode.element?] at agree

theorem member?_of_fieldsAgree {hints : List (String × Hint)}
    (agree : fieldsAgree hints node = true) {name : String}
    (speaks : name ∈ hints.map Prod.fst) :
    ∃ member, node.member? name = some member
      ∧ ((hints.lookup name).getD .unspecified).agrees member.2 = true := by
  induction hints with
  | nil => cases speaks
  | cons first rest ih =>
    obtain ⟨field, hint⟩ := first
    have both : (∃ member, node.member? field = some member ∧ hint.agrees member.2 = true)
        ∧ fieldsAgree rest node = true := by
      simpa [fieldsAgree, Option.any_eq_true] using agree
    rw [Entries.lookup_cons]
    by_cases same : field = name
    · subst same
      rw [if_pos rfl]
      exact both.1
    · rw [if_neg same]
      have later : name ∈ rest.map Prod.fst := by simpa [Ne.symm same] using speaks
      exact ih both.2 later

/-- A field that a hint speaks of is there if the hint agrees, and the hint for it agrees in
turn. -/
theorem member?_of_agrees (agree : hint.agrees node = true) {name : String}
    (speaks : name ∈ hint.namedFields) :
    ∃ member, node.member? name = some member ∧ (hint.field name).agrees member.2 = true := by
  cases hint with
  | unspecified | kind | elements => cases speaks
  | fields hints =>
    have both : node.kind = .group ∧ fieldsAgree hints node = true := by
      simpa [agrees] using agree
    exact member?_of_fieldsAgree both.2 speaks

theorem agrees_element {element : TreeNode} (agree : hint.agrees (.array element) = true) :
    hint.element.agrees element = true := by
  cases hint with
  | unspecified | kind => rfl
  | fields => simp [agrees, TreeNode.kind] at agree
  | elements below => exact agree

/-- Where each field that a hint speaks of is made once, the hints for the fields agree with
whatever is made. -/
theorem agrees_members {members : List (String × (Bool × TreeNode))}
    (agree : hint.agrees (.group (Entries.collect members)) = true)
    (once : ∀ name ∈ hint.namedFields, (Entries.keys members).count name ≤ 1) :
    ∀ m ∈ members, (hint.field m.1).agrees m.2.2 = true := by
  rintro ⟨name, member⟩ mem
  by_cases speaks : name ∈ hint.namedFields
  · obtain ⟨found, isFound, agrees⟩ := member?_of_agrees agree speaks
    have isFound : (Entries.collect members).lookup name = some found := isFound
    rw [Entries.lookup_collect, Entries.lookup_reverse_of_mem mem (once name speaks)] at isFound
    cases isFound
    exact agrees
  · rw [field_of_not_mem speaks]
    exact agrees_unspecified _

/-- A hint that agrees with a group speaks of no field that the group does not have. -/
theorem strangeField?_of_agrees {properties : List Property}
    {members : List (String × (Bool × TreeNode))}
    (agree : hint.agrees (.group (Entries.collect members)) = true)
    (names : Entries.keys members = properties.map Property.name) :
    Expansion.strangeField? properties hint = none := by
  refine List.find?_eq_none.2 fun name speaks => ?_
  obtain ⟨member, found, _⟩ := member?_of_agrees agree speaks
  have found : (Entries.collect members).lookup name = some member := found
  have mem : name ∈ properties.map Property.name := by
    rw [← names]
    by_contra absent
    rw [Entries.lookup_collect_eq_none_iff.2 absent] at found
    cases found
  simpa [List.mem_map] using mem

end Hint

/-! ## Collapsing -/

namespace TreeNode

mutual

/-- A tree with a control in the place of each node that a hint asks for a control at, given the
types of the controls' values by their positions. -/
def collapse (value : List PathStep → TypeId) (hint : Hint) : TreeNode → TreeNode
  | .control kept => .control (if hint.kind? = some .control then value [] else kept)
  | .group members =>
      if hint.kind? = some .control then .control (value [])
      else .group (collapseMembers value hint members)
  | .array element =>
      if hint.kind? = some .control then .control (value [])
      else .array (collapse (fun rest => value (.element :: rest)) hint.element element)
termination_by structural node => node

/-- The members of a group, each collapsed under the hint for it. -/
def collapseMembers (value : List PathStep → TypeId) (hint : Hint) :
    List (String × (Bool × TreeNode)) → List (String × (Bool × TreeNode))
  | [] => []
  | (name, (optional, node)) :: rest =>
      (name, (optional, collapse (fun rest => value (.field name :: rest)) (hint.field name) node))
        :: collapseMembers value hint rest
termination_by structural members => members

end

section

variable {value : List PathStep → TypeId} {hint : Hint}

theorem collapse_of_control (asks : hint.kind? = some .control) (node : TreeNode) :
    node.collapse value hint = .control (value []) := by
  cases node with
  | control | group | array => simp only [collapse, if_pos asks]

theorem collapseMembers_eq_map (members : List (String × (Bool × TreeNode))) :
    collapseMembers value hint members = members.map fun m =>
      (m.1, (m.2.1, m.2.2.collapse (fun rest => value (.field m.1 :: rest)) (hint.field m.1))) := by
  induction members with
  | nil => rfl
  | cons first rest ih => exact congrArg (_ :: ·) ih

theorem collapseMembers_collect (members : List (String × (Bool × TreeNode))) :
    collapseMembers value hint (Entries.collect members)
      = Entries.collect (collapseMembers value hint members) := by
  rw [collapseMembers_eq_map, collapseMembers_eq_map]
  exact (Entries.collect_map (fun name (m : Bool × TreeNode) => (m.1,
    m.2.collapse (fun rest => value (.field name :: rest)) (hint.field name))) members).symm

end

mutual

/-- Nothing collapses where a hint says nothing. -/
theorem collapse_unspecified (value : List PathStep → TypeId) :
    (node : TreeNode) → node.collapse value .unspecified = node
  | .control _ => rfl
  | .group members => congrArg TreeNode.group (collapseMembers_unspecified value members)
  | .array element => congrArg TreeNode.array (collapse_unspecified _ element)
termination_by structural node => node

theorem collapseMembers_unspecified (value : List PathStep → TypeId) :
    (members : List (String × (Bool × TreeNode))) →
      collapseMembers value .unspecified members = members
  | [] => rfl
  | (name, (optional, node)) :: rest =>
      congrArg₂ (fun node others => (name, (optional, node)) :: others)
        (collapse_unspecified _ node) (collapseMembers_unspecified value rest)
termination_by structural members => members

end

end TreeNode

/-! ## The controls of positions -/

namespace Catalog

/-- The type, in a later table, of the value of a control at a position below a model: that of the
declared type there, with `null` if the mode has it there. -/
def controlAt (catalog : Catalog) (mode : Mode) (later : TypeTable) (model : TypeId)
    (steps : List PathStep) : TypeId :=
  ((catalog.declaredAt? model steps).map fun declared =>
    (Interning.controlType catalog.models declared
      (catalog.decided mode declared false).nullable later).1).getD TypeId.unknown

/-- Every field that a hint speaks of is declared once by the object there. -/
def Unambiguous (catalog : Catalog) (declared : TypeId) (hint : Hint) : Prop :=
  ∀ steps inner properties, catalog.declaredAt? declared steps = some inner →
    catalog.shape inner = .object properties →
      ∀ name ∈ (hint.follow steps).namedFields, (properties.map Property.name).count name ≤ 1

variable {catalog : Catalog} {mode : Mode} {declared : TypeId} {hint : Hint}

theorem controlAt_cons {later : TypeTable} {step : PathStep} {below : TypeId}
    (leads : catalog.declaredBelow? declared step = some below) (rest : List PathStep) :
    catalog.controlAt mode later declared (step :: rest)
      = catalog.controlAt mode later below rest := by
  unfold controlAt
  rw [declaredAt?_cons leads]

namespace Unambiguous

theorem unspecified (catalog : Catalog) (declared : TypeId) :
    catalog.Unambiguous declared .unspecified := by
  intro steps inner properties _ _ name speaks
  rw [Hint.follow_unspecified] at speaks
  cases speaks

/-- Where no object has two properties of one name, no hint is ambiguous. -/
theorem of_distinctNames (wf : catalog.WellFormed) (distinct : catalog.types.DistinctNames)
    (declared : TypeId) (hint : Hint) : catalog.Unambiguous declared hint := by
  intro _ _ properties _ shape name _
  exact List.nodup_iff_count_le_one.1 (wf.nodup_names distinct shape) name

theorem once (unambiguous : catalog.Unambiguous declared hint) {properties : List Property}
    (shape : catalog.shape declared = .object properties) :
    ∀ name ∈ hint.namedFields, (properties.map Property.name).count name ≤ 1 :=
  unambiguous [] declared properties rfl shape

theorem step (unambiguous : catalog.Unambiguous declared hint) {step : PathStep} {below : TypeId}
    (leads : catalog.declaredBelow? declared step = some below) :
    catalog.Unambiguous below (hint.step step) := by
  intro steps inner properties isInner
  have further := unambiguous (step :: steps) inner properties
  rw [declaredAt?_cons leads, Hint.follow_cons] at further
  exact further isInner

/-- The property of a name that a hint speaks of is the only one, so it is the one below. -/
theorem declaredBelow? (unambiguous : catalog.Unambiguous declared hint)
    {properties : List Property} (shape : catalog.shape declared = .object properties)
    {p : Property} (mem : p ∈ properties) (speaks : p.name ∈ hint.namedFields) :
    catalog.declaredBelow? declared (.field p.name) = some p.type :=
  declaredBelow?_field shape mem (unambiguous.once shape _ speaks)

theorem field (unambiguous : catalog.Unambiguous declared hint) {properties : List Property}
    (shape : catalog.shape declared = .object properties) {p : Property} (mem : p ∈ properties) :
    catalog.Unambiguous p.type (hint.field p.name) := by
  by_cases speaks : p.name ∈ hint.namedFields
  · exact unambiguous.step (unambiguous.declaredBelow? shape mem speaks)
  · rw [Hint.field_of_not_mem speaks]
    exact .unspecified catalog p.type

theorem element (unambiguous : catalog.Unambiguous declared hint) {element : TypeId}
    (shape : catalog.shape declared = .array element) :
    catalog.Unambiguous element hint.element :=
  unambiguous.step (declaredBelow?_element shape)

/-- What a property comes to collapses in the same way wherever its positions are counted from. -/
theorem collapse_field (unambiguous : catalog.Unambiguous declared hint)
    {properties : List Property} (shape : catalog.shape declared = .object properties)
    {p : Property} (mem : p ∈ properties) (later : TypeTable) (node : TreeNode) :
    node.collapse (fun rest => catalog.controlAt mode later declared (.field p.name :: rest))
        (hint.field p.name)
      = node.collapse (catalog.controlAt mode later p.type) (hint.field p.name) := by
  by_cases speaks : p.name ∈ hint.namedFields
  · have leads := unambiguous.declaredBelow? shape mem speaks
    rw [funext (controlAt_cons leads)]
  · rw [Hint.field_of_not_mem speaks, TreeNode.collapse_unspecified, TreeNode.collapse_unspecified]

end Unambiguous

end Catalog

/-! ## Expansions in tables that have grown from one -/

namespace Expansion

open Catalog

variable {expansion : Expansion}

section

variable {base types after : TypeTable} {declared : TypeId} {hint : Hint} {nullable : Bool}
  {node : TreeNode} {named : Nat}

theorem Expands.grown (grown : Over expansion.models base types) (known : base.Knows declared)
    (expands : expansion.Expands types declared hint nullable node named after) :
    Over expansion.models types after := by
  have settled := expands.settles grown.wellFormed (grown.grows.knows known)
  exact ⟨settled.wellFormed, settled.adds.growsTo⟩

theorem ExpandsMembers.grown {properties : List Property}
    {members : List (String × (Bool × TreeNode))} (grown : Over expansion.models base types)
    (known : ∀ p ∈ properties, base.Knows p.type)
    (expands : expansion.ExpandsMembers types hint properties members named after) :
    Over expansion.models types after := by
  have settled := expands.settles grown.wellFormed fun p mem => grown.grows.knows (known p mem)
  exact ⟨settled.wellFormed, settled.adds.growsTo⟩

/-- Where a control is planned, there is one of the type that the declared type has later on. -/
theorem Expands.of_control (wf : (expansion.upon base).WellFormed)
    (grown : Over expansion.models base types) (known : base.Knows declared)
    (planned : NodePlan.ofClass? ((expansion.upon base).shape declared) hint.kind? = some .control)
    {later : TypeTable} (further : Over expansion.models after later)
    (expands : expansion.Expands types declared hint nullable node named after) :
    node = .control (Interning.controlType expansion.models declared nullable later).1 := by
  cases expands with
  | control strips plan typed =>
    obtain ⟨grownMiddle, _⟩ := over_of_strips wf grown known strips
    rw [grownMiddle.controlType_eq known typed further]
  | group strips plan | array strips plan =>
    rw [(over_of_strips wf grown known strips).2, planned] at plan
    cases plan

/-- Where a group is planned, there is one of what the properties expand to. -/
theorem Expands.of_group (wf : (expansion.upon base).WellFormed)
    (grown : Over expansion.models base types) (known : base.Knows declared)
    {properties : List Property}
    (planned : NodePlan.ofClass? ((expansion.upon base).shape declared) hint.kind?
      = some (.group properties))
    (expands : expansion.Expands types declared hint nullable node named after) :
    ∃ middle members named, Over expansion.models base middle
      ∧ expansion.ExpandsMembers middle hint properties members named after
      ∧ node = .group (Entries.collect members) := by
  cases expands with
  | group strips plan fields below =>
    obtain ⟨grownMiddle, class_eq⟩ := over_of_strips wf grown known strips
    rw [class_eq, planned] at plan
    cases plan
    exact ⟨_, _, _, grownMiddle, below, rfl⟩
  | control strips plan | array strips plan =>
    rw [(over_of_strips wf grown known strips).2, planned] at plan
    cases plan

/-- Where an array is planned, there is one of what the element expands to. -/
theorem Expands.of_array (wf : (expansion.upon base).WellFormed)
    (grown : Over expansion.models base types) (known : base.Knows declared) {element : TypeId}
    (planned : NodePlan.ofClass? ((expansion.upon base).shape declared) hint.kind?
      = some (.array element))
    (expands : expansion.Expands types declared hint nullable node named after) :
    ∃ middle below, Over expansion.models base middle
      ∧ expansion.Expands middle element hint.element
        ((expansion.upon base).decided expansion.mode element false).nullable below named after
      ∧ node = .array below := by
  cases expands with
  | array strips plan below =>
    obtain ⟨grownMiddle, class_eq⟩ := over_of_strips wf grown known strips
    rw [class_eq, planned] at plan
    cases plan
    have knownElement := wf.knows_element (NodePlan.eq_array_of_ofClass? planned)
    rw [grownMiddle.catalog.decided_eq wf knownElement] at below
    exact ⟨_, _, grownMiddle, below, rfl⟩
  | control strips plan | group strips plan =>
    rw [(over_of_strips wf grown known strips).2, planned] at plan
    cases plan

/-- Under a hint that agrees with what is planned without one, the same is planned, unless the hint
asks for a control. -/
theorem planned_of_agrees (wf : (expansion.upon base).WellFormed)
    (grown : Over expansion.models base types) (known : base.Knows declared)
    {stripped : TypeId} {middle : TypeTable} {plan : NodePlan}
    (strips : Interning.withoutNullish expansion.models declared types = (stripped, middle))
    (planned : NodePlan.ofClass? ((expansion.upon middle).classify stripped) none = some plan)
    (same : plan.kind = node.kind) (agree : hint.agrees node = true)
    (taken : hint.kind? ≠ some .control) :
    NodePlan.ofClass? ((expansion.upon base).shape declared) hint.kind? = some plan := by
  have heeds := Hint.kind?_of_agrees agree taken
  rw [← same] at heeds
  rw [(over_of_strips wf grown known strips).2] at planned
  exact NodePlan.ofClass?_of_kind planned heeds

/-- Under a hint for a control, a declared type comes to what any node collapses to. -/
theorem Expands.eq_collapse_of_control (wf : (expansion.upon base).WellFormed)
    (grown : Over expansion.models base types) (known : base.Knows declared)
    (asks : hint.kind? = some .control)
    (decides : nullable = ((expansion.upon base).decided expansion.mode declared false).nullable)
    {later : TypeTable} (further : Over expansion.models after later)
    (expands : expansion.Expands types declared hint nullable node named after)
    (bare : TreeNode) :
    node = bare.collapse ((expansion.upon base).controlAt expansion.mode later declared) hint := by
  have planned := NodePlan.ofClass?_control ((expansion.upon base).shape declared)
  rw [← asks] at planned
  rw [expands.of_control wf grown known planned further, TreeNode.collapse_of_control asks, decides]
  rfl

end

/-! ## Collapsing what is expanded -/

mutual

/-- What a declared type expands to under a hint is what it expands to without one, collapsed, if
the hint agrees with it.  The induction is on the expansion without a hint. -/
theorem Expands.eq_collapse {base types after : TypeTable} {declared : TypeId} {silence : Hint}
    {nullable : Bool} {node : TreeNode} {named : Nat} (wf : (expansion.upon base).WellFormed)
    (grown : Over expansion.models base types) (known : base.Knows declared)
    (silent : silence = .unspecified) :
    expansion.Expands types declared silence nullable node named after →
      ∀ ⦃hint : Hint⦄ ⦃types' after' later : TypeTable⦄ ⦃node' : TreeNode⦄ ⦃named' : Nat⦄,
        Over expansion.models base types' →
        expansion.Expands types' declared hint nullable node' named' after' →
        hint.agrees node = true → (expansion.upon base).Unambiguous declared hint →
        (hint.kind? = some .control →
          nullable = ((expansion.upon base).decided expansion.mode declared false).nullable) →
        Over expansion.models after later → Over expansion.models after' later →
          node' = node.collapse ((expansion.upon base).controlAt expansion.mode later declared) hint
  | .control strips plan typed => by
    intro hint types' after' later node' named' grown' hinted agree _ decides further further'
    by_cases asks : hint.kind? = some .control
    · exact hinted.eq_collapse_of_control wf grown' known asks (decides asks) further' _
    · obtain ⟨grownMiddle, _⟩ := over_of_strips wf grown known strips
      rw [silent] at plan
      have planned := planned_of_agrees wf grown known strips plan rfl agree asks
      rw [hinted.of_control wf grown' known planned further', TreeNode.collapse, if_neg asks,
        grownMiddle.controlType_eq known typed further]
  | .group strips plan _ below => by
    intro hint types' after' later node' named' grown' hinted agree unambiguous decides further
      further'
    by_cases asks : hint.kind? = some .control
    · exact hinted.eq_collapse_of_control wf grown' known asks (decides asks) further' _
    · obtain ⟨grownMiddle, _⟩ := over_of_strips wf grown known strips
      rw [silent] at plan
      have planned := planned_of_agrees wf grown known strips plan rfl agree asks
      obtain ⟨_, members', _, grownMiddle', below', rfl⟩ := hinted.of_group wf grown' known planned
      have shape := NodePlan.eq_object_of_ofClass? planned
      have once := unambiguous.once shape
      rw [← below.keys_eq] at once
      have same := ExpandsMembers.eq_collapse wf grownMiddle
        (fun p mem => wf.knows_property shape mem) silent below grownMiddle' below'
        (Hint.agrees_members agree once) (fun p mem => unambiguous.field shape mem) further further'
        (fun p mem => unambiguous.collapse_field shape mem later)
      rw [TreeNode.collapse, if_neg asks, TreeNode.collapseMembers_collect, same]
  | .array strips plan below => by
    intro hint types' after' later node' named' grown' hinted agree unambiguous decides further
      further'
    by_cases asks : hint.kind? = some .control
    · exact hinted.eq_collapse_of_control wf grown' known asks (decides asks) further' _
    · obtain ⟨grownMiddle, _⟩ := over_of_strips wf grown known strips
      rw [silent] at plan
      have planned := planned_of_agrees wf grown known strips plan rfl agree asks
      obtain ⟨_, node', grownMiddle', hinted', rfl⟩ := hinted.of_array wf grown' known planned
      have shape := NodePlan.eq_array_of_ofClass? planned
      have knownElement := wf.knows_element shape
      have decided := grownMiddle.catalog.decided_eq wf knownElement expansion.mode false
      rw [← decided] at hinted'
      have same := Expands.eq_collapse wf grownMiddle knownElement (congrArg Hint.element silent)
        below grownMiddle' hinted' (Hint.agrees_element agree) (unambiguous.element shape)
        (fun _ => congrArg Decided.nullable decided) further further'
      rw [TreeNode.collapse, if_neg asks, same,
        funext (controlAt_cons (declaredBelow?_element shape))]

theorem ExpandsMembers.eq_collapse {base types after : TypeTable} {silence : Hint}
    {properties : List Property} {members : List (String × (Bool × TreeNode))} {named : Nat}
    (wf : (expansion.upon base).WellFormed) (grown : Over expansion.models base types)
    (known : ∀ p ∈ properties, base.Knows p.type) (silent : silence = .unspecified) :
    expansion.ExpandsMembers types silence properties members named after →
      ∀ ⦃hint : Hint⦄ ⦃value : List PathStep → TypeId⦄ ⦃types' after' later : TypeTable⦄
        ⦃members' : List (String × (Bool × TreeNode))⦄ ⦃named' : Nat⦄,
        Over expansion.models base types' →
        expansion.ExpandsMembers types' hint properties members' named' after' →
        (∀ m ∈ members, (hint.field m.1).agrees m.2.2 = true) →
        (∀ p ∈ properties, (expansion.upon base).Unambiguous p.type (hint.field p.name)) →
        Over expansion.models after later → Over expansion.models after' later →
        (∀ p ∈ properties, ∀ node : TreeNode,
          node.collapse (fun rest => value (.field p.name :: rest)) (hint.field p.name)
            = node.collapse ((expansion.upon base).controlAt expansion.mode later p.type)
              (hint.field p.name)) →
          members' = TreeNode.collapseMembers value hint members
  | .nil => by
    intro hint value types' after' later members' named' _ hinted _ _ _ _ _
    cases hinted
    rfl
  | @ExpandsMembers.cons _ _ _ _ _ p _ _ _ _ _ _ decides head tail => by
    intro hint value types' after' later members' named' grown' hinted agree unambiguous further
      further' values
    cases hinted with
    | cons decides' head' tail' =>
      obtain ⟨knownFirst, knownRest⟩ := List.forall_mem_cons.1 known
      obtain ⟨agreeFirst, agreeRest⟩ := List.forall_mem_cons.1 agree
      obtain ⟨unambiguousFirst, unambiguousRest⟩ := List.forall_mem_cons.1 unambiguous
      obtain ⟨valuesFirst, valuesRest⟩ := List.forall_mem_cons.1 values
      rw [grown.catalog.decided_eq wf knownFirst] at decides
      rw [grown'.catalog.decided_eq wf knownFirst, decides] at decides'
      subst decides'
      -- Whether a property may be absent has no share in whether its value may be `null`.
      have nullable : _ = (Catalog.decided _ expansion.mode p.type false).nullable :=
        (congrArg Decided.nullable decides).symm
      have first := head.grown grown knownFirst
      have first' := head'.grown grown' knownFirst
      have rest := tail.grown (grown.trans first) knownRest
      have rest' := tail'.grown (grown'.trans first') knownRest
      have sameFirst := Expands.eq_collapse wf grown knownFirst (congrArg (Hint.field · _) silent)
        head grown' head' agreeFirst unambiguousFirst (fun _ => nullable) (rest.trans further)
        (rest'.trans further')
      have sameRest := ExpandsMembers.eq_collapse wf (grown.trans first) knownRest silent tail
        (grown'.trans first') tail' agreeRest unambiguousRest further further' valuesRest
      rw [TreeNode.collapseMembers, valuesFirst, ← sameFirst, ← sameRest]

end

end Expansion

end ModelForms
