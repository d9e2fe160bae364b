import ModelForms.Proofs.Document.ComposedProperties
import ModelForms.Proofs.Document.Resolution
import ModelForms.Proofs.Form.TreeValues
import ModelForms.Proofs.Tree.HonouredHints

/-!
# No property is lost

The properties of an object have distinct names in every table that a document is lowered to,
whether a model lists them or they are composed from those of other models.  Adding a type keeps
this (`Catalog.Closed`).

So although the members of a group are collected by name, none takes the place of another.  Every
group of a form has one member for each property that is declared there, in the order of the
properties, and the type of its value has as many (`Document.keepsProperties_of_lower`).
-/

namespace ModelForms

namespace TreeNode

/-- The type of a group's value is an object that has the members' names in their order. -/
theorem exists_object_of_group (members : List (String × (Bool × TreeNode))) (table : TypeTable) :
    ∃ projected, (valueType (.group members) table).2.lookup (valueType (.group members) table).1
        = some (.object projected)
      ∧ projected.map Property.name = Entries.keys members := by
  rw [valueType_group]
  exact ⟨_, (TypeTable.object_spec _ _).2, names_memberTypes members table⟩

end TreeNode

namespace Catalog

/-- Every group of a tree for a declared type has one member for each property that is declared
there, in the order of the properties, and so has the object that its value is. -/
def KeepsProperties (catalog : Catalog) (declared : TypeId) (tree : TreeNode) : Prop :=
  ∀ steps members, tree.follow? steps = some (.group members) →
    ∃ type properties, catalog.declaredAt? declared steps = some type
      ∧ catalog.shape type = .object properties
      ∧ (properties.map Property.name).Nodup
      ∧ Entries.keys members = properties.map Property.name
      ∧ ∀ table, ∃ projected,
        (TreeNode.valueType (.group members) table).2.lookup
            (TreeNode.valueType (.group members) table).1 = some (.object projected)
          ∧ projected.map Property.name = properties.map Property.name
          ∧ projected.length = properties.length

variable {catalog : Catalog} {mode : Mode} {declared : TypeId} {hint : Hint}

/-- Where names are distinct, the members of a group are those of the properties that it is planned
for. -/
theorem Plans.keys_of_group {members : List (String × (Bool × TreeNode))}
    (wf : catalog.WellFormed) (distinct : catalog.types.DistinctNames)
    (h : catalog.Plans mode declared hint (.group members)) :
    ∃ properties, catalog.shape declared = .object properties
      ∧ (properties.map Property.name).Nodup
      ∧ Entries.keys members = properties.map Property.name := by
  cases h with
  | group plan fields below =>
    have shape := NodePlan.eq_object_of_ofClass? plan
    have names := wf.nodup_names distinct shape
    refine ⟨_, shape, names, ?_⟩
    rw [Entries.collect_eq_self (below.keys_eq ▸ names), below.keys_eq]

theorem Plans.keepsProperties {tree : TreeNode} (wf : catalog.WellFormed)
    (distinct : catalog.types.DistinctNames) (h : catalog.Plans mode declared hint tree) :
    catalog.KeepsProperties declared tree := by
  intro steps members found
  obtain ⟨type, htype, plans⟩ := h.follow found
  obtain ⟨properties, shape, names, keys⟩ := plans.keys_of_group wf distinct
  refine ⟨type, properties, htype, shape, names, keys, fun table => ?_⟩
  obtain ⟨projected, object, same⟩ := TreeNode.exists_object_of_group members table
  have same : projected.map Property.name = properties.map Property.name := same.trans keys
  refine ⟨projected, object, same, ?_⟩
  simpa only [List.length_map] using congrArg List.length same

end Catalog

namespace DerivedForm

variable {models : Definitions} {mode : Mode} {hint : Hint} {model : TypeId}
  {types later after : TypeTable} {tree : DerivedForm}

/-- Where names are distinct, a form keeps the properties, whatever else has been added to the types
by the time that it is derived. -/
theorem keepsProperties_of_derive (wf : Catalog.WellFormed ⟨types, models⟩)
    (distinct : types.DistinctNames) (known : types.Knows model)
    (grown : Catalog.Over models types later)
    (derives : derive models mode hint model later = (.ok tree, after)) :
    Catalog.KeepsProperties ⟨types, models⟩ model tree.root := by
  obtain ⟨_, _, _, expands, _⟩ := expands_of_derive derives
  have plans := expands.plans wf grown.wellFormed grown.grows known
  exact plans.keepsProperties wf distinct

end DerivedForm

namespace Document

variable {document : Document} {lowered : Lowered}

/-- When a document is lowered, every object type has properties with distinct names, composed types
included.  So a form over any of its models, or over any other type that is there, loses no
property, whatever hint and mode it is derived with and whatever else has been added to the types by
then. -/
theorem keepsProperties_of_lower (h : document.lower = .ok lowered) :
    (∀ id properties, lowered.catalog.types.lookup id = some (.object properties) →
        (properties.map Property.name).Nodup)
      ∧ (∀ name ∈ document.models.keys, ∃ root, lowered.rootModel (some name) = .ok root
        ∧ lowered.catalog.types.Knows root)
      ∧ ∀ model, lowered.catalog.types.Knows model →
        ∀ types, Catalog.Over lowered.catalog.models lowered.catalog.types types →
          ∀ mode hint tree after,
            DerivedForm.derive lowered.catalog.models mode hint model types = (.ok tree, after) →
              lowered.catalog.KeepsProperties model tree.root := by
  obtain ⟨complete, _⟩ := complete_of_lower h
  have wf := complete.closed.wellFormed
  have distinct := complete.closed.distinct
  refine ⟨fun id properties found => ?_, fun name declared => ?_, ?_⟩
  · exact distinct properties (TypeTable.mem_entries_of_lookup found (by simp))
  · obtain ⟨definition, _, found, _⟩ := exists_body_of_lower h declared
    exact Lowered.exists_rootModel complete found
  · intro model known types grown mode hint tree after derives
    exact DerivedForm.keepsProperties_of_derive wf distinct known grown derives

/-- Both operands of the composition have the property `name`. -/
theorem keepsProperties_of_lower_accounts :
    ∃ lowered root tree after, accounts.lower = .ok lowered
      ∧ lowered.rootModel (some "Named") = .ok root
      ∧ DerivedForm.derive lowered.catalog.models ⟨.never, .declared⟩ .unspecified root
          lowered.catalog.types = (.ok tree, after)
      ∧ lowered.catalog.KeepsProperties root tree.root
      ∧ tree.root.members?.map Entries.keys = some ["name", "nickname"] := by
  have names : (accounts.lower.toOption.bind fun lowered =>
      (lowered.rootModel (some "Named")).toOption.bind fun root =>
        (DerivedForm.derive lowered.catalog.models ⟨.never, .declared⟩ .unspecified root
          lowered.catalog.types).1.toOption.bind fun tree =>
            tree.root.members?.map Entries.keys) = some ["name", "nickname"] := by
    decide +kernel
  cases h : accounts.lower with
  | error error =>
    rw [h] at names
    cases names
  | ok lowered =>
  obtain ⟨_, roots, keeps⟩ := keepsProperties_of_lower h
  obtain ⟨root, chosen, known⟩ := roots "Named" (by decide)
  rw [h] at names
  simp only [Except.toOption, Option.bind_some, chosen] at names
  cases derives : DerivedForm.derive lowered.catalog.models ⟨.never, .declared⟩ .unspecified root
    lowered.catalog.types with
  | mk outcome after =>
  rw [derives] at names
  cases outcome with
  | error error => cases names
  | ok tree =>
    have wf := (closed_of_lower h).1.wellFormed
    exact ⟨lowered, root, tree, after, rfl, chosen, derives,
      keeps root known _ ⟨wf, .refl _⟩ _ _ _ _ derives, names⟩

end Document

end ModelForms
