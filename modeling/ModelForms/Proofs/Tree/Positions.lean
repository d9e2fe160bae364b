import Mathlib.Data.List.Forall2
import ModelForms.Proofs.Tree.Rules

/-!
# Declared types of positions

A position of a tree is reached by steps from its root.  `Catalog.declaredAt?` takes the same steps
along declared types, by the shapes of the types, so it says of each position what is declared
there.  It reads the models only.  A node that some steps lead to is what the type at the end of the
steps comes to (`Yields.follow`).
-/

namespace ModelForms

/-- The property of a name.  Of several, the last one counts. -/
def Property.last? (properties : List Property) (name : String) : Option Property :=
  List.lookup name (properties.map fun p => (p.name, p)).reverse

namespace Property

theorem last?_cons (p : Property) (rest : List Property) (name : String) :
    last? (p :: rest) name = (last? rest name).or (if p.name = name then some p else none) := by
  unfold last?
  rw [List.map_cons, List.reverse_cons, List.lookup_append, Entries.lookup_cons]
  rfl

theorem last?_eq_none_iff {properties : List Property} {name : String} :
    last? properties name = none ↔ name ∉ properties.map Property.name := by
  induction properties with
  | nil => simp [last?]
  | cons p rest ih =>
    rw [last?_cons, Option.or_eq_none_iff, ih]
    simp [eq_comm, and_comm]

theorem mem_of_last? {properties : List Property} {name : String} {p : Property}
    (h : last? properties name = some p) : p ∈ properties := by
  induction properties with
  | nil => cases h
  | cons first rest ih =>
    rw [last?_cons, Option.or_eq_some_iff] at h
    rcases h with h | ⟨_, h⟩
    · exact List.mem_cons_of_mem first (ih h)
    · split at h
      · cases h
        exact List.mem_cons_self
      · cases h

/-- Where members stand beside properties of their names, the last member of a name stands beside
the last property of the name. -/
theorem exists_last? {α : Type} {beside : Property → α → Prop} {properties : List Property}
    {members : List (String × α)}
    (parallel : List.Forall₂ (fun p m => m.1 = p.name ∧ beside p m.2) properties members)
    {name : String} {x : α} (found : members.reverse.lookup name = some x) :
    ∃ p, last? properties name = some p ∧ p.name = name ∧ beside p x := by
  induction parallel with
  | nil => cases found
  | @cons p m rest members pair tail ih =>
    obtain ⟨key, y⟩ := m
    obtain ⟨rfl, besides⟩ := pair
    rw [List.reverse_cons, List.lookup_append, Option.or_eq_some_iff] at found
    rcases found with found | ⟨none, found⟩
    · obtain ⟨q, hq, facts⟩ := ih found
      refine ⟨q, ?_, facts⟩
      rw [last?_cons, hq, Option.some_or]
    · rw [Entries.lookup_cons] at found
      split at found
      next same =>
        cases found
        have names : Entries.keys members = rest.map Property.name := by
          clear ih none
          induction tail with
          | nil => rfl
          | cons pair _ ih => exact congrArg₂ List.cons pair.1 ih
        have absent : name ∉ Entries.keys members.reverse := Entries.lookup_eq_none_iff.1 none
        rw [Entries.keys, List.map_reverse, List.mem_reverse, ← Entries.keys, names,
          ← last?_eq_none_iff] at absent
        refine ⟨p, ?_, same, besides⟩
        rw [last?_cons, absent, if_pos same, Option.none_or]
      next => cases found

/-- A property whose name comes once is the one of the name. -/
theorem last?_of_mem {properties : List Property} {p : Property} (mem : p ∈ properties)
    (once : (properties.map Property.name).count p.name ≤ 1) : last? properties p.name = some p := by
  refine Entries.lookup_reverse_of_mem (List.mem_map.2 ⟨p, mem, rfl⟩) ?_
  rw [Entries.keys, List.map_map]
  exact once

end Property

namespace Catalog

/-- The declared type of a property of an object. -/
def propertyBelow? (catalog : Catalog) (declared : TypeId) (name : String) : Option TypeId :=
  match catalog.shape declared with
  | .object properties => (Property.last? properties name).map Property.type
  | _ => none

/-- The declared type of the elements of an array. -/
def elementBelow? (catalog : Catalog) (declared : TypeId) : Option TypeId :=
  match catalog.shape declared with
  | .array element => some element
  | _ => none

/-- The declared type one step below a declared type. -/
def declaredBelow? (catalog : Catalog) (declared : TypeId) : PathStep → Option TypeId
  | .field name => catalog.propertyBelow? declared name
  | .element | .index _ => catalog.elementBelow? declared

/-- The declared type at the end of some steps. -/
def declaredAt? (catalog : Catalog) : TypeId → List PathStep → Option TypeId
  | declared, [] => some declared
  | declared, step :: rest =>
      (catalog.declaredBelow? declared step).bind fun below => catalog.declaredAt? below rest
termination_by structural _ steps => steps

section

variable {catalog : Catalog} {mode : Mode}

theorem declaredAt?_cons {declared below : TypeId} {step : PathStep}
    (leads : catalog.declaredBelow? declared step = some below) (rest : List PathStep) :
    catalog.declaredAt? declared (step :: rest) = catalog.declaredAt? below rest := by
  rw [declaredAt?, leads, Option.bind_some]

theorem declaredBelow?_field {declared : TypeId} {properties : List Property}
    (shape : catalog.shape declared = .object properties) {p : Property} (mem : p ∈ properties)
    (once : (properties.map Property.name).count p.name ≤ 1) :
    catalog.declaredBelow? declared (.field p.name) = some p.type := by
  simp only [declaredBelow?, propertyBelow?, shape, Property.last?_of_mem mem once, Option.map_some]

theorem declaredBelow?_element {declared element : TypeId}
    (shape : catalog.shape declared = .array element) :
    catalog.declaredBelow? declared .element = some element := by
  simp only [declaredBelow?, elementBelow?, shape]

theorem knows_elementBelow (wf : catalog.WellFormed) {declared below : TypeId}
    (h : catalog.elementBelow? declared = some below) : catalog.types.Knows below := by
  unfold elementBelow? at h
  split at h
  next element shape =>
    cases h
    exact wf.knows_element shape
  next => cases h

theorem knows_propertyBelow (wf : catalog.WellFormed) {declared below : TypeId} {name : String}
    (h : catalog.propertyBelow? declared name = some below) : catalog.types.Knows below := by
  unfold propertyBelow? at h
  split at h
  next properties shape =>
    obtain ⟨p, hp, rfl⟩ := Option.map_eq_some_iff.1 h
    exact wf.knows_property shape (Property.mem_of_last? hp)
  next => cases h

theorem knows_declaredBelow (wf : catalog.WellFormed) {declared below : TypeId} {step : PathStep}
    (h : catalog.declaredBelow? declared step = some below) : catalog.types.Knows below := by
  cases step with
  | field name => exact knows_propertyBelow wf h
  | element => exact knows_elementBelow wf h
  | index => exact knows_elementBelow wf h

theorem GrowsTo.declaredAt?_eq {later : Catalog} (grows : catalog.GrowsTo later)
    (wf : catalog.WellFormed) (steps : List PathStep) {declared : TypeId}
    (known : catalog.types.Knows declared) :
    later.declaredAt? declared steps = catalog.declaredAt? declared steps := by
  induction steps generalizing declared with
  | nil => rfl
  | cons step rest ih =>
    have same : later.declaredBelow? declared step = catalog.declaredBelow? declared step := by
      unfold declaredBelow? propertyBelow? elementBelow?
      rw [grows.shape_eq wf known]
    unfold declaredAt?
    rw [same]
    cases h : catalog.declaredBelow? declared step with
    | none => rfl
    | some below => exact ih (knows_declaredBelow wf h)

theorem knows_declaredAt (wf : catalog.WellFormed) (steps : List PathStep) {declared below : TypeId}
    (known : catalog.types.Knows declared) (h : catalog.declaredAt? declared steps = some below) :
    catalog.types.Knows below := by
  induction steps generalizing declared with
  | nil =>
    cases h
    exact known
  | cons step rest ih =>
    obtain ⟨next, hnext, h⟩ := Option.bind_eq_some_iff.1 h
    exact ih (knows_declaredBelow wf hnext) h

/-- The members of a group beside the properties that they come from. -/
theorem YieldsMembers.forall₂ {hint : Hint} {properties : List Property}
    {members : List (String × (Bool × TreeNode))}
    (h : catalog.YieldsMembers mode hint properties members) :
    List.Forall₂ (fun p m => m.1 = p.name
      ∧ m.2.1 = (catalog.decided mode p.type p.optional).optional
      ∧ catalog.Yields mode p.type (hint.field p.name)
        (catalog.decided mode p.type p.optional).nullable m.2.2) properties members := by
  induction properties generalizing members with
  | nil =>
    cases h
    exact .nil
  | cons p rest ih =>
    cases h with
    | cons decides head tail =>
      subst decides
      exact .cons ⟨rfl, rfl, head⟩ (ih tail)

/-- The last member of a name is what the last property of the name comes to. -/
theorem YieldsMembers.lookup_reverse {hint : Hint} {properties : List Property}
    {members : List (String × (Bool × TreeNode))} {name : String} {optional : Bool}
    {node : TreeNode} (yields : catalog.YieldsMembers mode hint properties members)
    (found : members.reverse.lookup name = some (optional, node)) :
    ∃ p, Property.last? properties name = some p
      ∧ optional = (catalog.decided mode p.type p.optional).optional
      ∧ catalog.Yields mode p.type (hint.field name)
        (catalog.decided mode p.type p.optional).nullable node := by
  obtain ⟨p, hp, rfl, facts⟩ := @Property.exists_last? _
    (fun p x => x.1 = (catalog.decided mode p.type p.optional).optional
      ∧ catalog.Yields mode p.type (hint.field p.name)
        (catalog.decided mode p.type p.optional).nullable x.2) _ _ yields.forall₂ _ _ found
  exact ⟨p, hp, facts⟩

/-- The node one step below is what the declared type one step below comes to. -/
theorem Yields.step {declared : TypeId} {hint : Hint} {nullable : Bool} {node below : TreeNode}
    (yields : catalog.Yields mode declared hint nullable node) {step : PathStep}
    (found : node.step? step = some below) :
    ∃ type, catalog.declaredBelow? declared step = some type ∧ ∃ hint' optional,
      catalog.Yields mode type hint' (catalog.decided mode type optional).nullable below := by
  cases yields with
  | control => cases step <;> cases found
  | @group _ _ _ properties members shape members_yield =>
    cases step with
    | field name =>
      obtain ⟨⟨optional, node⟩, hmember, rfl⟩ := Option.map_eq_some_iff.1 found
      have hmember : (Entries.collect members).lookup name = some (optional, node) := hmember
      rw [Entries.lookup_collect] at hmember
      obtain ⟨p, hp, _, below⟩ := members_yield.lookup_reverse hmember
      refine ⟨p.type, ?_, _, p.optional, below⟩
      unfold declaredBelow? propertyBelow?
      rw [shape]
      exact congrArg (Option.map Property.type) hp
    | element => cases found
    | index => cases found
  | @array _ element _ _ _ shape below_yields =>
    cases step with
    | field => cases found
    | element | index =>
      cases found
      refine ⟨element, ?_, _, false, below_yields⟩
      unfold declaredBelow? elementBelow?
      rw [shape]

/-- The node at the end of some steps is what the declared type at their end comes to. -/
theorem Yields.follow {declared : TypeId} {hint : Hint} {nullable : Bool} {node below : TreeNode}
    (yields : catalog.Yields mode declared hint nullable node) {steps : List PathStep}
    (found : node.follow? steps = some below) :
    ∃ type, catalog.declaredAt? declared steps = some type ∧ ∃ hint' nullable',
      catalog.Yields mode type hint' nullable' below
        ∧ (nullable' = nullable ∨ ∃ other optional,
          nullable' = (catalog.decided mode other optional).nullable) := by
  induction steps generalizing declared hint nullable node with
  | nil =>
    cases found
    exact ⟨declared, rfl, hint, nullable, yields, Or.inl rfl⟩
  | cons step rest ih =>
    obtain ⟨next, hnext, found⟩ := Option.bind_eq_some_iff.1 found
    obtain ⟨type, htype, hint', optional, yields'⟩ := yields.step hnext
    obtain ⟨last, hlast, hint'', nullable'', yields'', hnullable⟩ := ih yields' found
    refine ⟨last, ?_, hint'', nullable'', yields'', Or.inr ?_⟩
    · rw [declaredAt?, htype]
      exact hlast
    · rcases hnullable with h | h
      · exact ⟨type, optional, h⟩
      · exact h

end

end Catalog

end ModelForms
