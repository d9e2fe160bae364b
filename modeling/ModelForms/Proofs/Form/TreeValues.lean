import ModelForms.Form.Conformance
import ModelForms.Proofs.Form.Levels

/-!
# The values of conforming controls

A control that conforms to a tree has a value of the tree's type (`inhabits_valueType`).  It does
not matter how the tree came about, or what else is in the table.

The walk that lists mismatches and the projection of a tree to a type are written apart from each
other.  They meet in the induction over the tree: the lemmas named after the three kinds of node
say what it means that nothing is reported there.
-/

namespace ModelForms

/-! ## Values by name -/

namespace Control

theorem lookup_memberValues (members : Entries Control) (name : String) :
    List.lookup name (memberValues members) = (members.lookup name).map value := by
  induction members with
  | nil => rfl
  | cons first rest ih =>
    obtain ⟨key, control⟩ := first
    show List.lookup name ((key, control.value) :: memberValues rest) = _
    rw [Entries.lookup_cons, Entries.lookup_cons, ih]
    split <;> rfl

theorem keys_memberValues (members : Entries Control) :
    Entries.keys (memberValues members) = members.keys := by
  induction members with
  | nil => rfl
  | cons first rest ih =>
    obtain ⟨key, control⟩ := first
    exact congrArg (key :: ·) ih

theorem mem_itemValues {items : List Control} {v : Json} (h : v ∈ itemValues items) :
    ∃ item ∈ items, item.value = v := by
  induction items with
  | nil => cases h
  | cons first rest ih =>
    rcases List.mem_cons.1 h with rfl | h
    · exact ⟨first, List.mem_cons_self, rfl⟩
    · obtain ⟨item, hitem, hv⟩ := ih h
      exact ⟨item, List.mem_cons_of_mem first hitem, hv⟩

end Control

/-! ## Nothing is reported -/

namespace Conformance

variable {catalog : Catalog} {path : FieldPath} {control : Control}

theorem of_control {type : TypeId} (h : mismatches catalog path (.control type) control = []) :
    ∃ cell, control = .cell cell ∧ catalog.accepts cell.value type = true := by
  cases control with
  | cell c =>
    refine ⟨c, rfl, ?_⟩
    have h : cell catalog path type c = [] := h
    unfold cell at h
    obtain ⟨_, h⟩ := List.append_eq_nil_iff.1 h
    split at h
    next accepts => exact accepts
    next => cases h
  | group members => cases h
  | array items => cases h

theorem of_group {declared : List (String × (Bool × TreeNode))}
    (h : mismatches catalog path (.group declared) control = []) :
    ∃ members, control = .group members ∧ declaredMismatches catalog path members declared = []
      ∧ ∀ name ∈ Entries.keys members, name ∈ Entries.keys declared := by
  cases control with
  | group members =>
    have h : declaredMismatches catalog path members declared ++ unexpected path declared members
      = [] := h
    obtain ⟨hdeclared, hunexpected⟩ := List.append_eq_nil_iff.1 h
    refine ⟨members, rfl, hdeclared, fun name hname => ?_⟩
    rw [unexpected, List.map_eq_nil_iff, List.filter_eq_nil_iff] at hunexpected
    have := hunexpected name hname
    simp only [Bool.not_eq_true, Bool.not_eq_false'] at this
    exact Entries.hasKey_iff.1 this
  | cell c => cases h
  | array items => cases h

theorem of_array {element : TreeNode} (h : mismatches catalog path (.array element) control = []) :
    ∃ items, control = .array items
      ∧ ∀ item ∈ items, ∃ place, mismatches catalog place element item = [] := by
  cases control with
  | array items =>
    refine ⟨items, rfl, fun item hitem => ?_⟩
    have h : (items.mapIdx fun index item =>
      mismatches catalog (path.index index) element item).flatten = [] := h
    obtain ⟨index, hindex, rfl⟩ := List.mem_iff_getElem.1 hitem
    exact ⟨path.index index, List.flatten_eq_nil_iff.1 h _
      (List.mem_mapIdx.2 ⟨index, hindex, rfl⟩)⟩
  | cell c => cases h
  | group members => cases h

/-- A declared member conforms if it is there, and may be absent if it is not. -/
theorem of_declared {members : Entries Control} {name : String} {optional : Bool}
    {node : TreeNode} {rest : List (String × (Bool × TreeNode))}
    (h : declaredMismatches catalog path members ((name, (optional, node)) :: rest) = []) :
    (∀ control, members.lookup name = some control →
        mismatches catalog (path.field name) node control = [])
      ∧ (members.lookup name = none → optional = true)
      ∧ declaredMismatches catalog path members rest = [] := by
  obtain ⟨first, others⟩ := List.append_eq_nil_iff.1 h
  refine ⟨fun control found => ?_, fun missing => ?_, others⟩
  · rw [found] at first
    exact first
  · rw [missing] at first
    cases optional with
    | true => rfl
    | false => cases first

/-- A check that reports nothing has found nothing. -/
theorem mismatches_of_check {node : TreeNode}
    (h : check catalog node control Limits.reportedMismatches = []) :
    mismatches catalog .root node control = [] :=
  (List.take_eq_nil_iff.1 h).resolve_left (by decide)

end Conformance

/-! ## The type of a tree -/

namespace TypeTable

/-- An object type is found under its id, in a table that has grown. -/
theorem object_spec (properties : List Property) (table : TypeTable) :
    table.GrowsTo (Interning.object properties table).2
      ∧ (Interning.object properties table).2.lookup (Interning.object properties table).1
        = some (.object properties) := by
  obtain ⟨noted, same, heq⟩ := object_eq properties table
  rw [heq]
  exact ⟨(GrowsTo.of_entries_eq same).trans (growsTo_intern _ _), lookup_intern _ _⟩

end TypeTable

namespace TreeNode

theorem valueType_group (members : List (String × (Bool × TreeNode))) (table : TypeTable) :
    valueType (.group members) table =
      Interning.object (memberTypes members table).1 (memberTypes members table).2 :=
  rfl

theorem valueType_array (element : TreeNode) (table : TypeTable) :
    valueType (.array element) table =
      Interning.intern (.array (element.valueType table).1) (element.valueType table).2 :=
  rfl

mutual

theorem growsTo_valueType : (node : TreeNode) → (table : TypeTable) →
    table.GrowsTo (node.valueType table).2
  | .control _, table => .refl table
  | .group members, table => by
    rw [valueType_group]
    exact (growsTo_memberTypes members table).trans (TypeTable.object_spec _ _).1
  | .array element, table => by
    rw [valueType_array]
    exact (growsTo_valueType element table).trans (TypeTable.growsTo_intern _ _)

theorem growsTo_memberTypes : (members : List (String × (Bool × TreeNode))) → (table : TypeTable) →
    table.GrowsTo (memberTypes members table).2
  | [], table => .refl table
  | (_, (_, node)) :: rest, table =>
      (growsTo_valueType node table).trans (growsTo_memberTypes rest _)

end

theorem memberTypes_cons (name : String) (optional : Bool) (node : TreeNode)
    (rest : List (String × (Bool × TreeNode))) (table : TypeTable) :
    memberTypes ((name, (optional, node)) :: rest) table =
      (⟨name, (node.valueType table).1, optional⟩ :: (memberTypes rest (node.valueType table).2).1,
        (memberTypes rest (node.valueType table).2).2) :=
  rfl

theorem names_memberTypes (members : List (String × (Bool × TreeNode))) (table : TypeTable) :
    (memberTypes members table).1.map Property.name = Entries.keys members := by
  induction members generalizing table with
  | nil => rfl
  | cons first rest ih =>
    obtain ⟨name, optional, node⟩ := first
    rw [memberTypes_cons]
    exact congrArg (name :: ·) (ih _)

variable {catalog : Catalog}

mutual

/-- A control that conforms to a tree has a value of the tree's type. -/
theorem inhabits_valueType_of_mismatches {path : FieldPath} {control : Control} {table : TypeTable}
    (grows : catalog.types.GrowsTo table) : (node : TreeNode) →
    Conformance.mismatches catalog path node control = [] →
      Inhabits ⟨(node.valueType table).2, catalog.models⟩ control.value (node.valueType table).1
  | .control type => fun h => by
    obtain ⟨cell, rfl, accepts⟩ := Conformance.of_control h
    exact (Catalog.GrowsTo.of_types grows catalog.models).inhabits (inhabits_of_accepts accepts)
  | .group declared => fun h => by
    obtain ⟨members, rfl, hdeclared, names⟩ := Conformance.of_group h
    have suits := inhabits_memberTypes_of_mismatches grows declared hdeclared
    obtain ⟨growsObject, found⟩ :=
      TypeTable.object_spec (memberTypes declared table).1 (memberTypes declared table).2
    have toObject := Catalog.GrowsTo.of_types growsObject catalog.models
    rw [valueType_group]
    refine .object found (fun p hp value hvalue => ?_) (fun p hp hvalue => ?_)
      (fun name hname => ?_)
    · rw [Control.lookup_memberValues] at hvalue
      obtain ⟨control, hcontrol, rfl⟩ := Option.map_eq_some_iff.1 hvalue
      exact toObject.inhabits ((suits p hp).1 control hcontrol)
    · rw [Control.lookup_memberValues, Option.map_eq_none_iff] at hvalue
      exact Or.inl ((suits p hp).2 hvalue)
    · rw [Control.keys_memberValues] at hname
      have hmem := names name hname
      rw [← names_memberTypes declared table] at hmem
      obtain ⟨p, hp, hname⟩ := List.mem_map.1 hmem
      exact ⟨p, hp, hname⟩
  | .array element => fun h => by
    obtain ⟨items, rfl, hitems⟩ := Conformance.of_array h
    have growsArray := TypeTable.growsTo_intern (.array (element.valueType table).1)
      (element.valueType table).2
    have toArray := Catalog.GrowsTo.of_types growsArray catalog.models
    rw [valueType_array]
    refine .array (TypeTable.lookup_intern _ _) fun v hv => ?_
    obtain ⟨item, hitem, rfl⟩ := Control.mem_itemValues hv
    obtain ⟨place, conforms⟩ := hitems item hitem
    exact toArray.inhabits (inhabits_valueType_of_mismatches grows element conforms)

theorem inhabits_memberTypes_of_mismatches {path : FieldPath} {members : Entries Control}
    {table : TypeTable} (grows : catalog.types.GrowsTo table) :
    (declared : List (String × (Bool × TreeNode))) →
    Conformance.declaredMismatches catalog path members declared = [] →
      ∀ p ∈ (memberTypes declared table).1,
        (∀ control, members.lookup p.name = some control →
          Inhabits ⟨(memberTypes declared table).2, catalog.models⟩ control.value p.type)
        ∧ (members.lookup p.name = none → p.optional = true)
  | [] => fun _ _ h => by cases h
  | (name, (optional, node)) :: rest => fun h => by
    obtain ⟨present, absent, others⟩ := Conformance.of_declared h
    have toNode := growsTo_valueType node table
    have toRest := growsTo_memberTypes rest (node.valueType table).2
    have suits := inhabits_memberTypes_of_mismatches (grows.trans toNode) rest others
    rw [memberTypes_cons]
    refine List.forall_mem_cons.2 ⟨⟨fun control found => ?_, absent⟩, suits⟩
    exact (Catalog.GrowsTo.of_types toRest catalog.models).inhabits
      (inhabits_valueType_of_mismatches grows node (present control found))

end

end TreeNode

namespace DerivedForm

/-- A control that conforms to a form has a value of the type of the form's value, whichever mode
and hints the form was derived with. -/
theorem inhabits_valueType {tree : DerivedForm} {models : Definitions} {types : TypeTable}
    {control : Control}
    (conforms : Conformance.check ⟨types, models⟩ tree.root control Limits.reportedMismatches = []) :
    Inhabits ⟨(tree.valueType types).2, models⟩ control.value (tree.valueType types).1 :=
  tree.root.inhabits_valueType_of_mismatches (.refl types) (Conformance.mismatches_of_check conforms)

/-- A form of a person in which the friends are not taken apart. -/
def ofPerson : DerivedForm where
  root := .group [("name", (false, .control (.ofIntrinsic .string))),
    ("friends", (true, .array (.control ⟨101⟩)))]
  mode := ⟨.declared, .declared⟩
  model := ⟨103⟩

/-- A person with two friends, the first of whom is `null`. -/
def personControl : Control :=
  .group [("name", .cell (.new (.string "Ada") true)),
    ("friends", .array [.cell (.new .null false),
      .cell (.new (.object [("name", .string "Bo")]) false)])]

theorem inhabits_valueType_ofPerson :
    Conformance.check Catalog.person ofPerson.root personControl Limits.reportedMismatches = []
      ∧ Inhabits ⟨(ofPerson.valueType Catalog.person.types).2, Catalog.person.models⟩
        personControl.value (ofPerson.valueType Catalog.person.types).1 :=
  ⟨rfl, inhabits_valueType rfl⟩

end DerivedForm

end ModelForms
