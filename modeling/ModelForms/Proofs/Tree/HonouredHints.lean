import ModelForms.Proofs.Tree.Guarded
import ModelForms.Proofs.Tree.Plans
import ModelForms.Proofs.Tree.Positions

/-!
# Hints are honoured

A hint goes down with the expansion: along each step that leads to a node of a tree, the hint takes
the same step, and what stands there is planned under it (`Catalog.Plans.follow`).

What a plan makes of a hint is the same everywhere.  A node is of the kind that its hint asks for,
except that what is never taken apart stays a control, and it has every field that its hint speaks
of (`DerivedForm.honours_hint`).  No part of a hint for a form that is derived is left out.
-/

namespace ModelForms

/-- The hint one step below. -/
def Hint.step (hint : Hint) : PathStep → Hint
  | .field name => hint.field name
  | .element | .index _ => hint.element

theorem Hint.follow_cons (hint : Hint) (step : PathStep) (rest : List PathStep) :
    hint.follow (step :: rest) = (hint.step step).follow rest := by
  cases step with
  | field | element | index => rfl

/-- A hint that says nothing says nothing of what lies below. -/
theorem Hint.follow_unspecified (steps : List PathStep) :
    Hint.unspecified.follow steps = .unspecified := by
  induction steps with
  | nil => rfl
  | cons step rest ih =>
    rw [follow_cons]
    cases step with
    | field | element | index => exact ih

/-- A hint says nothing of a field that it does not speak of. -/
theorem Hint.field_of_not_mem {hint : Hint} {name : String} (silent : name ∉ hint.namedFields) :
    hint.field name = .unspecified := by
  cases hint with
  | unspecified | kind | elements => rfl
  | fields hints =>
    have none : hints.lookup name = none := Entries.lookup_eq_none_iff.2 silent
    simp only [field, none, Option.getD_none]

/-- Only a hint for a group speaks of fields. -/
theorem Hint.kind?_of_mem_namedFields {hint : Hint} {name : String} (h : name ∈ hint.namedFields) :
    hint.kind? = some .group := by
  cases hint with
  | fields => rfl
  | unspecified | kind | elements => cases h

/-- A group that is not strange to a hint has the fields that the hint speaks of. -/
theorem Expansion.mem_of_strangeField? {properties : List Property} {hint : Hint}
    (fields : strangeField? properties hint = none) {name : String}
    (named : name ∈ hint.namedFields) : name ∈ properties.map Property.name := by
  have known := List.find?_eq_none.1 fields name named
  simp only [Bool.not_eq_true, Bool.not_eq_false', List.any_eq_true, beq_iff_eq] at known
  exact List.mem_map.2 known

namespace NodePlan

/-- The kind of the node that is planned. -/
def kind : NodePlan → NodeKind
  | .control => .control
  | .group _ => .group
  | .array _ => .array

/-- What is planned unasked is planned where that is asked for. -/
theorem ofClass?_of_kind {type : Catalog.TypeClass} {plan : NodePlan} {asked : Option NodeKind}
    (planned : ofClass? type none = some plan) (same : asked = none ∨ asked = some plan.kind) :
    ofClass? type asked = some plan := by
  obtain rfl | rfl := same
  · exact planned
  · cases type <;> cases planned <;> rfl

/-- A plan heeds the kind that is asked for, except where a type is never taken apart. -/
theorem kind_of_ofClass? {type : Catalog.TypeClass} {asked : NodeKind} {plan : NodePlan}
    (h : ofClass? type (some asked) = some plan) :
    plan.kind = if asked.isStructural && type.isAtomic then .control else asked := by
  cases asked with
  | control =>
    rw [ofClass?_control] at h
    cases h
    rfl
  | group | array =>
    cases type <;> cases h <;> rfl

end NodePlan

namespace Catalog

variable {catalog : Catalog} {mode : Mode} {declared : TypeId} {hint : Hint} {node : TreeNode}

/-- The members of a group beside the properties that they come from. -/
theorem PlansMembers.forall₂ {hint : Hint} {properties : List Property}
    {members : List (String × (Bool × TreeNode))}
    (h : catalog.PlansMembers mode hint properties members) :
    List.Forall₂ (fun p m => m.1 = p.name
      ∧ catalog.Plans mode p.type (hint.field p.name) m.2.2) properties members := by
  induction properties generalizing members with
  | nil =>
    cases h
    exact .nil
  | cons p rest ih =>
    cases h with
    | cons _ head tail => exact .cons ⟨rfl, head⟩ (ih tail)

/-- A node is of the kind that is planned for it, and a group has the fields that the hint speaks
of. -/
theorem Plans.planned (h : catalog.Plans mode declared hint node) :
    ∃ plan, NodePlan.ofClass? (catalog.shape declared) hint.kind? = some plan
      ∧ plan.kind = node.kind
      ∧ (plan.kind = .group → ∀ name ∈ hint.namedFields, (node.member? name).isSome) := by
  cases h with
  | control plan => exact ⟨_, plan, rfl, nofun⟩
  | array plan => exact ⟨_, plan, rfl, nofun⟩
  | @group _ _ _ members plan fields below =>
    refine ⟨_, plan, rfl, fun _ name spoken => ?_⟩
    have mem : name ∈ Entries.keys members := by
      rw [below.keys_eq]
      exact Expansion.mem_of_strangeField? fields spoken
    exact Option.isSome_iff_ne_none.2 fun absent => Entries.lookup_collect_eq_none_iff.1 absent mem

/-- The node one step below is planned for the declared type one step below, under the hint one step
below. -/
theorem Plans.step (h : catalog.Plans mode declared hint node) {step : PathStep}
    {below : TreeNode} (found : node.step? step = some below) :
    ∃ type, catalog.declaredBelow? declared step = some type
      ∧ catalog.Plans mode type (hint.step step) below := by
  cases h with
  | control => cases step <;> cases found
  | @group _ _ properties members plan fields plans =>
    have shape := NodePlan.eq_object_of_ofClass? plan
    cases step with
    | field name =>
      obtain ⟨⟨optional, _⟩, hmember, rfl⟩ := Option.map_eq_some_iff.1 found
      have hmember : (Entries.collect members).lookup name = some (optional, _) := hmember
      rw [Entries.lookup_collect] at hmember
      obtain ⟨p, hp, rfl, planned⟩ := @Property.exists_last? _
        (fun p x => catalog.Plans mode p.type (hint.field p.name) x.2) _ _ plans.forall₂ _ _
        hmember
      refine ⟨p.type, ?_, planned⟩
      unfold declaredBelow? propertyBelow?
      rw [shape]
      exact congrArg (Option.map Property.type) hp
    | element => cases found
    | index => cases found
  | @array _ element _ _ plan planned =>
    have shape := NodePlan.eq_array_of_ofClass? plan
    cases step with
    | field => cases found
    | element | index =>
      cases found
      refine ⟨element, ?_, planned⟩
      unfold declaredBelow? elementBelow?
      rw [shape]

/-- The node at the end of some steps is planned for the declared type there, under the hint
there. -/
theorem Plans.follow (h : catalog.Plans mode declared hint node) {steps : List PathStep}
    {below : TreeNode} (found : node.follow? steps = some below) :
    ∃ type, catalog.declaredAt? declared steps = some type
      ∧ catalog.Plans mode type (hint.follow steps) below := by
  induction steps generalizing declared hint node with
  | nil =>
    cases found
    exact ⟨declared, rfl, h⟩
  | cons step rest ih =>
    obtain ⟨next, hnext, found⟩ := Option.bind_eq_some_iff.1 found
    obtain ⟨type, htype, planned⟩ := h.step hnext
    obtain ⟨last, hlast, planned⟩ := ih planned found
    rw [Hint.follow_cons]
    refine ⟨last, ?_, planned⟩
    rw [declaredAt?, htype]
    exact hlast

end Catalog

namespace DerivedForm

variable {models : Definitions} {mode : Mode} {hint : Hint} {model : TypeId}
  {types after : TypeTable} {tree : DerivedForm}

theorem plans_of_derive (wf : Catalog.WellFormed ⟨types, models⟩)
    (derives : derive models mode hint model types = (.ok tree, after)) :
    Catalog.Plans ⟨types, models⟩ mode model hint tree.root := by
  obtain ⟨_, _, _, expands, _⟩ := expands_of_derive derives
  exact expands.plans wf wf (.refl types) (knows_of_derive derives)

/-- Where a hint for a form that is derived asks for a kind of node, there is a node of that kind,
and it has every field that the hint speaks of.  Only where the declared type is never taken apart,
there is a control whatever the hint asks for. -/
theorem honours_hint (wf : Catalog.WellFormed ⟨types, models⟩)
    (derives : derive models mode hint model types = (.ok tree, after)) {steps : List PathStep}
    {node : TreeNode} (found : tree.root.follow? steps = some node) {asked : NodeKind}
    (asks : (hint.follow steps).kind? = some asked) :
    ∃ declared, Catalog.declaredAt? ⟨types, models⟩ model steps = some declared
      ∧ if asked.isStructural && (Catalog.shape ⟨types, models⟩ declared).isAtomic then
          node.kind = .control
        else
          node.kind = asked
            ∧ ∀ name ∈ (hint.follow steps).namedFields, (node.member? name).isSome := by
  obtain ⟨declared, hdeclared, plans⟩ := (plans_of_derive wf derives).follow found
  obtain ⟨plan, planned, samekind, fields⟩ := plans.planned
  rw [asks] at planned
  have heeds := NodePlan.kind_of_ofClass? planned
  refine ⟨declared, hdeclared, ?_⟩
  split at heeds
  next atomic =>
    rw [if_pos atomic, ← samekind]
    exact heeds
  next taken =>
    rw [if_neg taken, ← samekind]
    refine ⟨heeds, fun name spoken => fields ?_ name spoken⟩
    rw [Hint.kind?_of_mem_namedFields spoken] at asks
    cases asks
    exact heeds

/-- Of a person, the hint for the friends asks for an array. -/
theorem honours_hint_person :
    derive Catalog.person.models ⟨.never, .declared⟩
        (.fields [("friends", .elements (.kind .control))]) ⟨103⟩ Catalog.person.types
        = (.ok ⟨.group [("name", (false, .control (.ofIntrinsic .string))),
          ("friends", (true, .array (.control ⟨100⟩)))], ⟨.never, .declared⟩, ⟨103⟩⟩,
          Catalog.person.types)
      ∧ ∃ declared, Catalog.person.declaredAt? ⟨103⟩ [.field "friends"] = some declared
        ∧ if NodeKind.array.isStructural && (Catalog.person.shape declared).isAtomic then
            (TreeNode.array (.control ⟨100⟩)).kind = .control
          else
            (TreeNode.array (.control ⟨100⟩)).kind = .array
              ∧ ∀ name ∈ (Hint.elements (.kind .control)).namedFields,
                ((TreeNode.array (.control ⟨100⟩)).member? name).isSome := by
  have derives : derive Catalog.person.models ⟨.never, .declared⟩
      (.fields [("friends", .elements (.kind .control))]) ⟨103⟩ Catalog.person.types
      = (.ok ⟨.group [("name", (false, .control (.ofIntrinsic .string))),
        ("friends", (true, .array (.control ⟨100⟩)))], ⟨.never, .declared⟩, ⟨103⟩⟩,
        Catalog.person.types) := rfl
  have found : TreeNode.follow? (.group [("name", (false, .control (.ofIntrinsic .string))),
      ("friends", (true, .array (.control ⟨100⟩)))]) [.field "friends"]
      = some (.array (.control ⟨100⟩)) := rfl
  exact ⟨derives, honours_hint (by decide) derives found rfl⟩

end DerivedForm

end ModelForms
