import Mathlib.Logic.Relation
import ModelForms.Proofs.Tree.Cycles

/-!
# The way of an expansion

An expansion goes from a group to its members and from an array to its elements, and the hint goes
with it.  `Catalog.Visits` says to which positions it gets in this way, as long as nothing stops it,
and with which declared type and hint it arrives.  It reads the models only, so it is the same in
every later table (`Visits.growsTo`).

Where a model is expanded that encloses itself and the hint says nothing of what lies below, the way
never ends (`Visits.not_yields`): a node there would need one below it for ever, and a node further
up would need one there.
-/

namespace ModelForms

namespace Catalog

/-- An expansion of a declared type under a hint gets along some steps to a position of a declared
type, where a hint applies. -/
inductive Visits (catalog : Catalog) (declared : TypeId) (hint : Hint) :
    List PathStep → TypeId → Hint → Prop
  | here : Visits catalog declared hint [] declared hint
  | field {steps : List PathStep} {outer : TypeId} {around : Hint} {properties : List Property}
      {p : Property} (way : Visits catalog declared hint steps outer around)
      (group : NodePlan.ofClass? (catalog.shape outer) around.kind? = some (.group properties))
      (mem : p ∈ properties) :
      Visits catalog declared hint (steps ++ [.field p.name]) p.type (around.field p.name)
  | element {steps : List PathStep} {outer element : TypeId} {around : Hint}
      (way : Visits catalog declared hint steps outer around)
      (array : NodePlan.ofClass? (catalog.shape outer) around.kind? = some (.array element)) :
      Visits catalog declared hint (steps ++ [.element]) element around.element

namespace Visits

variable {catalog : Catalog} {mode : Mode} {declared inner : TypeId} {hint within : Hint}
  {steps : List PathStep}

/-- A way leads down. -/
theorem reflTransGen (way : catalog.Visits declared hint steps inner within) :
    Relation.ReflTransGen catalog.Below inner declared := by
  induction way with
  | here => exact .refl
  | field _ group mem ih => exact .head (.property (NodePlan.eq_object_of_ofClass? group) mem) ih
  | element _ array ih => exact .head (.element (NodePlan.eq_array_of_ofClass? array)) ih

theorem transGen (way : catalog.Visits declared hint steps inner within) (proper : steps ≠ []) :
    Relation.TransGen catalog.Below inner declared := by
  cases way with
  | here => exact absurd rfl proper
  | field way group mem =>
    exact .head' (.property (NodePlan.eq_object_of_ofClass? group) mem) way.reflTransGen
  | element way array =>
    exact .head' (.element (NodePlan.eq_array_of_ofClass? array)) way.reflTransGen

theorem knows (wf : catalog.WellFormed) (way : catalog.Visits declared hint steps inner within)
    (known : catalog.types.Knows declared) : catalog.types.Knows inner := by
  induction way with
  | here => exact known
  | field _ group mem => exact wf.knows_property (NodePlan.eq_object_of_ofClass? group) mem
  | element _ array => exact wf.knows_element (NodePlan.eq_array_of_ofClass? array)

theorem growsTo {later : Catalog} (grows : catalog.GrowsTo later) (wf : catalog.WellFormed)
    (way : catalog.Visits declared hint steps inner within)
    (known : catalog.types.Knows declared) : later.Visits declared hint steps inner within := by
  induction way with
  | here => exact .here
  | field way group mem ih =>
    rw [← grows.shape_eq wf (way.knows wf known)] at group
    exact .field ih group mem
  | element way array ih =>
    rw [← grows.shape_eq wf (way.knows wf known)] at array
    exact .element ih array

end Visits

/-! ## Nodes along the way -/

/-- Each property of an object comes to a node if the properties come to members. -/
theorem YieldsMembers.exists_yields {catalog : Catalog} {mode : Mode} {hint : Hint}
    {properties : List Property} {members : List (String × (Bool × TreeNode))} {p : Property}
    (mem : p ∈ properties) : catalog.YieldsMembers mode hint properties members →
      ∃ nullable node, catalog.Yields mode p.type (hint.field p.name) nullable node
  | .nil => by cases mem
  | .cons _ head tail => by
    rcases List.mem_cons.1 mem with rfl | mem
    · exact ⟨_, _, head⟩
    · exact tail.exists_yields mem

/-- A declared type that comes to a node comes to one at every position on the way. -/
theorem Visits.exists_yields {catalog : Catalog} {mode : Mode} {declared inner : TypeId}
    {hint within : Hint} {steps : List PathStep} {nullable : Bool} {node : TreeNode}
    (way : catalog.Visits declared hint steps inner within)
    (yields : catalog.Yields mode declared hint nullable node) :
    ∃ nullable' node', catalog.Yields mode inner within nullable' node' := by
  induction way with
  | here => exact ⟨nullable, node, yields⟩
  | field way group mem ih =>
    obtain ⟨_, _, outer⟩ := ih
    have object := NodePlan.eq_object_of_ofClass? group
    cases outer with
    | control plan => cases plan.symm.trans group
    | group shape below =>
      cases shape.symm.trans object
      exact below.exists_yields mem
    | array shape => cases shape.symm.trans object
  | element way array ih =>
    obtain ⟨_, _, outer⟩ := ih
    have shape' := NodePlan.eq_array_of_ofClass? array
    cases outer with
    | control plan => cases plan.symm.trans array
    | group shape => cases shape.symm.trans shape'
    | array shape below =>
      cases shape.symm.trans shape'
      exact ⟨_, _, below⟩

/-! ## Models that are expanded around a position -/

/-- Of a type that is no union, only a reference names a model. -/
theorem namedModelWithin_of_flat {catalog : Catalog} {id : TypeId}
    (flat : catalog.types.unionMembers? id = none) (depth : Nat) :
    catalog.namedModelWithin (depth + 1) id = catalog.types.referenced? id := by
  unfold namedModelWithin TypeTable.referenced?
  split
  next found => simp only [found]
  next members found => simp [TypeTable.unionMembers?, found] at flat
  next notReference _ =>
    split
    next found => exact absurd found (notReference _)
    next => rfl

theorem GrowsTo.namedModel?_eq {earlier later : Catalog} (grows : earlier.GrowsTo later)
    (wf : earlier.WellFormed) {declared : TypeId} (known : earlier.types.Knows declared) :
    later.namedModel? declared = earlier.namedModel? declared := by
  unfold namedModel? namedModelWithin
  rw [grows.types.lookup_eq known]
  cases found : earlier.types.lookup declared with
  | none => rfl
  | some entry =>
    cases entry with
    | intrinsic | literal | leaf | object | array | reference => rfl
    | union members =>
      have normal := wf.types.normalUnion (TypeTable.unionMembers?_eq_some_iff.2 found)
      have stored := TypeTable.mem_entries_of_lookup found (by simp)
      have size : 0 < earlier.types.size := List.length_pos_of_mem stored
      have longer : earlier.types.size ≤ later.types.size := grows.types.length_le
      obtain ⟨depth, hdepth⟩ : ∃ depth, earlier.types.size = depth + 1 :=
        ⟨earlier.types.size - 1, by omega⟩
      obtain ⟨deeper, hdeeper⟩ : ∃ deeper, later.types.size = deeper + 1 :=
        ⟨later.types.size - 1, by omega⟩
      simp only
      split
      next only hfilter =>
        have mem : only ∈ members :=
          (List.mem_filter.1 (hfilter ▸ List.mem_singleton_self only)).1
        have flat := normal.flat only mem
        have known' := normal.known only mem
        rw [hdepth, hdeeper, namedModelWithin_of_flat flat,
          namedModelWithin_of_flat ((grows.types.unionMembers?_eq known').trans flat),
          grows.types.referenced?_eq known']
      next => rfl

/-- A group that stands for a model is expanded around a position: it lies on the way to it, at
fewer steps. -/
def ExpandedAround (catalog : Catalog) (root : TypeId) (rootHint : Hint) (steps : List PathStep)
    (declared : TypeId) (hint : Hint) (definition : ModelId) : Prop :=
  ∃ before after outer around properties, steps = before ++ after ∧ after ≠ []
    ∧ catalog.Visits root rootHint before outer around
    ∧ NodePlan.ofClass? (catalog.shape outer) around.kind? = some (.group properties)
    ∧ catalog.namedModel? outer = some definition
    ∧ catalog.Visits outer around after declared hint

section

variable {catalog : Catalog} {mode : Mode} {root declared : TypeId} {rootHint hint : Hint}
  {steps : List PathStep} {definition : ModelId} {properties : List Property}

theorem ExpandedAround.growsTo {later : Catalog} (grows : catalog.GrowsTo later)
    (wf : catalog.WellFormed) (known : catalog.types.Knows root)
    (h : catalog.ExpandedAround root rootHint steps declared hint definition) :
    later.ExpandedAround root rootHint steps declared hint definition := by
  obtain ⟨before, after, outer, around, properties, hsteps, proper, visits, group, named, way⟩ := h
  have knownOuter := visits.knows wf known
  refine ⟨before, after, outer, around, properties, hsteps, proper, visits.growsTo grows wf known,
    ?_, ?_, way.growsTo grows wf knownOuter⟩
  · rw [grows.shape_eq wf knownOuter]
    exact group
  · rw [grows.namedModel?_eq wf knownOuter]
    exact named

/-- What is expanded around a group is expanded around its members. -/
theorem ExpandedAround.field
    (h : catalog.ExpandedAround root rootHint steps declared hint definition)
    (group : NodePlan.ofClass? (catalog.shape declared) hint.kind? = some (.group properties))
    {p : Property} (mem : p ∈ properties) :
    catalog.ExpandedAround root rootHint (steps ++ [.field p.name]) p.type (hint.field p.name)
      definition := by
  obtain ⟨before, after, outer, around, others, rfl, _, visits, isGroup, named, way⟩ := h
  exact ⟨before, after ++ [.field p.name], outer, around, others, by rw [List.append_assoc],
    by simp, visits, isGroup, named, .field way group mem⟩

theorem ExpandedAround.element {element : TypeId}
    (h : catalog.ExpandedAround root rootHint steps declared hint definition)
    (array : NodePlan.ofClass? (catalog.shape declared) hint.kind? = some (.array element)) :
    catalog.ExpandedAround root rootHint (steps ++ [.element]) element hint.element
      definition := by
  obtain ⟨before, after, outer, around, others, rfl, _, visits, isGroup, named, way⟩ := h
  exact ⟨before, after ++ [.element], outer, around, others, by rw [List.append_assoc],
    by simp, visits, isGroup, named, .element way array⟩

/-- The model of a group is expanded around the members of the group. -/
theorem Visits.expandedAround (visits : catalog.Visits root rootHint steps declared hint)
    (group : NodePlan.ofClass? (catalog.shape declared) hint.kind? = some (.group properties))
    (named : catalog.namedModel? declared = some definition) {p : Property}
    (mem : p ∈ properties) :
    catalog.ExpandedAround root rootHint (steps ++ [.field p.name]) p.type (hint.field p.name)
      definition :=
  ⟨steps, [.field p.name], declared, hint, properties, rfl, by simp, visits, group, named,
    .field .here group mem⟩

theorem ExpandedAround.encloses (wf : catalog.WellFormed)
    (h : catalog.ExpandedAround root rootHint steps declared hint definition) :
    catalog.Encloses definition declared := by
  obtain ⟨_, after, outer, around, properties, _, proper, _, group, named, way⟩ := h
  have shape := NodePlan.eq_object_of_ofClass? group
  exact ⟨outer, properties, way.transGen proper, shape, wf.modelHas named shape⟩

/-- No finite tree is there for a root from which an expansion gets to a group of a model that is
being expanded, unless the hint describes what lies below the group. -/
theorem Visits.not_yields (wf : catalog.WellFormed)
    (visits : catalog.Visits root rootHint steps declared hint)
    (group : NodePlan.ofClass? (catalog.shape declared) hint.kind? = some (.group properties))
    (named : catalog.namedModel? declared = some definition)
    (around : catalog.ExpandedAround root rootHint steps declared hint definition)
    (undescribed : hint.describesBelow = false) {nullable : Bool} {node : TreeNode} :
    ¬ catalog.Yields mode root rootHint nullable node := by
  intro yields
  have shape := NodePlan.eq_object_of_ofClass? group
  have silent : hint.Silent := by
    refine ⟨undescribed, fun asked => ?_⟩
    rw [asked, NodePlan.ofClass?_control] at group
    cases group
  obtain ⟨_, _, here⟩ := visits.exists_yields yields
  exact not_acc_of_encloses wf (wf.modelHas named shape) shape (around.encloses wf)
    (acc_of_yields silent here)

end

end Catalog

end ModelForms
