import ModelForms.Proofs.Form.TreeValues

/-!
# Navigating trees and their types

A tree can be followed along a path node by node, and the type of its value can be followed along
the same path through the table, from an object to a property and from an array to its elements.
The two ways lead to the same place: the type that is reached is the type of the node's value
(`DerivedForm.follow?_valueType`).

The type of a value is not stored, and each time that it is asked for the table may grow.  What
keeps the answers together is that an entry is found again under its first id.  So once a node was
asked for its type, every later table gives the same id (`TreeNode.valueType_eq`), and the node may
be asked before or after the type of the whole is followed.  No part of this needs a table without
repeated entries or unknown ids, since the first of equal entries stays the first.
-/

namespace ModelForms

namespace TypeTable

/-! ## Interning again -/

theorem idxOf?_append_of_eq_some {entry : TypeEntry} {entries more : List TypeEntry} {i : Nat}
    (h : entries.idxOf? entry = some i) : (entries ++ more).idxOf? entry = some i := by
  unfold List.idxOf? at *
  rw [List.findIdx?_append, h, Option.some_or]

theorem idxOf?_append_cons_of_eq_none {entry : TypeEntry} {entries more : List TypeEntry}
    (h : entries.idxOf? entry = none) :
    (entries ++ entry :: more).idxOf? entry = some entries.length := by
  unfold List.idxOf? at *
  rw [List.findIdx?_append, h, List.findIdx?_cons]
  simp

/-- An entry that was interned before has the id that it was given then, and is not added again. -/
theorem GrowsTo.intern_eq {table later : TypeTable} {entry : TypeEntry}
    (grows : (Interning.intern entry table).2.GrowsTo later) (proper : ∀ k, entry ≠ .intrinsic k) :
    Interning.intern entry later = ((Interning.intern entry table).1, later) := by
  obtain ⟨added, hadded⟩ := grows
  cases found : table.entries.idxOf? entry with
  | some i =>
    rw [intern_of_found proper found] at hadded ⊢
    exact intern_of_found proper (hadded ▸ idxOf?_append_of_eq_some found)
  | none =>
    rw [intern_of_new proper found] at hadded ⊢
    simp only [List.append_assoc, List.singleton_append] at hadded
    exact intern_of_found proper (hadded ▸ idxOf?_append_cons_of_eq_none found)

theorem growsTo_of_object {properties : List Property} {table later : TypeTable}
    (grows : (Interning.object properties table).2.GrowsTo later) :
    table.GrowsTo later ∧ later.lookup (Interning.object properties table).1
      = some (.object properties) := by
  obtain ⟨grown, found⟩ := object_spec properties table
  exact ⟨grown.trans grows, grows.lookup found⟩

/-- Properties that were made an object before have its id.  Only their names are noted once
more. -/
theorem GrowsTo.object_eq {table later : TypeTable} {properties : List Property}
    (grows : (Interning.object properties table).2.GrowsTo later) :
    (Interning.object properties later).1 = (Interning.object properties table).1
      ∧ (Interning.object properties later).2.entries = later.entries := by
  obtain ⟨noted, _, first⟩ := TypeTable.object_eq properties table
  obtain ⟨noted', same, second⟩ := TypeTable.object_eq properties later
  rw [first] at grows ⊢
  have grows' := grows.trans (GrowsTo.of_entries_eq same)
  rw [second, grows'.intern_eq nofun]
  exact ⟨rfl, same⟩

/-! ## Following a path through types -/

/-- The property of an object type with a name. -/
def property? (table : TypeTable) (id : TypeId) (name : String) : Option Property :=
  match table.lookup id with
  | some (.object properties) => properties.find? (·.name == name)
  | _ => none

/-- The element type of an array type. -/
def element? (table : TypeTable) (id : TypeId) : Option TypeId :=
  match table.lookup id with
  | some (.array element) => some element
  | _ => none

/-- The type one step into a type. -/
def step? (table : TypeTable) (id : TypeId) : PathStep → Option TypeId
  | .field name => (table.property? id name).map Property.type
  | .element | .index _ => table.element? id

/-- The type at the end of some steps into a type. -/
def follow? (table : TypeTable) : TypeId → List PathStep → Option TypeId
  | id, [] => some id
  | id, step :: rest => (table.step? id step).bind fun below => table.follow? below rest

theorem property?_of_lookup {table : TypeTable} {id : TypeId} {properties : List Property}
    (found : table.lookup id = some (.object properties)) (name : String) :
    table.property? id name = properties.find? (·.name == name) := by
  simp [property?, found]

theorem element?_of_lookup {table : TypeTable} {id element : TypeId}
    (found : table.lookup id = some (.array element)) : table.element? id = some element := by
  simp [element?, found]

end TypeTable

namespace TreeNode

/-! ## Asking a node again -/

mutual

/-- A node that was asked for the type of its value has the same type ever after. -/
theorem valueType_eq : (node : TreeNode) → {table later : TypeTable} →
    (node.valueType table).2.GrowsTo later →
      (node.valueType later).1 = (node.valueType table).1
        ∧ (node.valueType later).2.entries = later.entries
  | .control _, _, _, _ => ⟨rfl, rfl⟩
  | .group members, table, later, grows => by
    rw [valueType_group] at grows ⊢
    obtain ⟨properties_eq, same⟩ := memberTypes_eq members (TypeTable.growsTo_of_object grows).1
    have grows' := grows.trans (TypeTable.GrowsTo.of_entries_eq same)
    obtain ⟨type_eq, same'⟩ := grows'.object_eq
    rw [valueType_group, properties_eq]
    exact ⟨type_eq, same'.trans same⟩
  | .array element, table, later, grows => by
    rw [valueType_array] at grows ⊢
    obtain ⟨element_eq, same⟩ :=
      valueType_eq element ((TypeTable.growsTo_intern _ _).trans grows)
    have grows' := grows.trans (TypeTable.GrowsTo.of_entries_eq same)
    rw [valueType_array, element_eq, grows'.intern_eq nofun]
    exact ⟨rfl, same⟩

theorem memberTypes_eq : (members : List (String × (Bool × TreeNode))) →
    {table later : TypeTable} → (memberTypes members table).2.GrowsTo later →
      (memberTypes members later).1 = (memberTypes members table).1
        ∧ (memberTypes members later).2.entries = later.entries
  | [], _, _, _ => ⟨rfl, rfl⟩
  | (name, (optional, node)) :: rest, table, later, grows => by
    rw [memberTypes_cons] at grows ⊢
    obtain ⟨type_eq, same⟩ := valueType_eq node ((growsTo_memberTypes rest _).trans grows)
    obtain ⟨rest_eq, same'⟩ :=
      memberTypes_eq rest (grows.trans (TypeTable.GrowsTo.of_entries_eq same))
    rw [memberTypes_cons, type_eq, rest_eq]
    exact ⟨rfl, same'.trans same⟩

end

/-! ## Following a tree and its type -/

variable {node below : TreeNode} {table later : TypeTable}

theorem find?_memberTypes {members : List (String × (Bool × TreeNode))} {name : String}
    {optional : Bool} (found : members.lookup name = some (optional, below))
    (grows : (memberTypes members table).2.GrowsTo later) :
    ∃ asked, (below.valueType asked).2.GrowsTo later
      ∧ (memberTypes members table).1.find? (·.name == name)
        = some ⟨name, (below.valueType asked).1, optional⟩ := by
  induction members generalizing table with
  | nil => cases found
  | cons first rest ih =>
    obtain ⟨key, flag, node⟩ := first
    rw [memberTypes_cons] at grows ⊢
    rw [Entries.lookup_cons] at found
    rw [List.find?_cons]
    by_cases same : key = name
    · rw [if_pos same] at found
      cases found
      have here : (key == name) = true := beq_iff_eq.2 same
      simp only [here]
      exact ⟨table, (growsTo_memberTypes rest _).trans grows, by rw [same]⟩
    · rw [if_neg same] at found
      have elsewhere : (key == name) = false := beq_eq_false_iff_ne.2 same
      simp only [elsewhere]
      exact ih found grows

/-- The type of a member's value, and whether the member may be absent, are those of the property
with its name. -/
theorem property?_valueType {name : String} {optional : Bool}
    (found : node.member? name = some (optional, below))
    (grows : (node.valueType table).2.GrowsTo later) :
    ∃ asked, (below.valueType asked).2.GrowsTo later
      ∧ later.property? (node.valueType table).1 name
        = some ⟨name, (below.valueType asked).1, optional⟩ := by
  cases node with
  | control type => cases found
  | array element => cases found
  | group members =>
    rw [valueType_group] at grows ⊢
    obtain ⟨grown, object⟩ := TypeTable.growsTo_of_object grows
    rw [TypeTable.property?_of_lookup object]
    exact find?_memberTypes found grown

theorem step?_valueType {step : PathStep} (found : node.step? step = some below)
    (grows : (node.valueType table).2.GrowsTo later) :
    ∃ asked, (below.valueType asked).2.GrowsTo later
      ∧ later.step? (node.valueType table).1 step = some (below.valueType asked).1 := by
  have element (found : node.element? = some below) :
      ∃ asked, (below.valueType asked).2.GrowsTo later
        ∧ later.element? (node.valueType table).1 = some (below.valueType asked).1 := by
    cases node with
    | control type => cases found
    | group members => cases found
    | array element =>
      cases found
      rw [valueType_array] at grows ⊢
      have array := grows.lookup (TypeTable.lookup_intern _ _)
      exact ⟨table, (TypeTable.growsTo_intern _ _).trans grows,
        TypeTable.element?_of_lookup array⟩
  cases step with
  | field name =>
    obtain ⟨⟨optional, node⟩, hmember, rfl⟩ := Option.map_eq_some_iff.1 found
    obtain ⟨asked, grown, property⟩ := property?_valueType hmember grows
    refine ⟨asked, grown, ?_⟩
    show (later.property? _ name).map Property.type = _
    rw [property, Option.map_some]
  | element => exact element found
  | index i => exact element found

theorem follow?_valueType_of_asked {steps : List PathStep} (found : node.follow? steps = some below)
    (grows : (node.valueType table).2.GrowsTo later) :
    ∃ asked, (below.valueType asked).2.GrowsTo later
      ∧ later.follow? (node.valueType table).1 steps = some (below.valueType asked).1 := by
  induction steps generalizing node table with
  | nil =>
    cases found
    exact ⟨table, grows, rfl⟩
  | cons step rest ih =>
    obtain ⟨next, hnext, found⟩ := Option.bind_eq_some_iff.1 found
    obtain ⟨asked, grown, reached⟩ := step?_valueType hnext grows
    obtain ⟨last, grown, follows⟩ := ih found grown
    refine ⟨last, grown, ?_⟩
    show (later.step? _ step).bind _ = _
    rw [reached, Option.bind_some, follows]

theorem follow?_append (node : TreeNode) (steps more : List PathStep) :
    node.follow? (steps ++ more) = (node.follow? steps).bind fun below => below.follow? more := by
  induction steps generalizing node with
  | nil => rfl
  | cons step rest ih =>
    show (node.step? step).bind (fun below => below.follow? (rest ++ more))
      = ((node.step? step).bind fun below => below.follow? rest).bind fun below => below.follow? more
    rw [Option.bind_assoc]
    exact Option.bind_congr fun below _ => ih below

end TreeNode

namespace DerivedForm

variable {tree : DerivedForm}

theorem member_of_steps {path : FieldPath} {parent : List PathStep} {name : String}
    (ends : path.steps = parent ++ [.field name]) :
    tree.entry? path = (tree.root.follow? parent).bind fun node => node.member? name := by
  unfold entry?
  simp [ends]

theorem get?_of_steps {path : FieldPath} {parent : List PathStep} {name : String}
    (ends : path.steps = parent ++ [.field name]) :
    tree.get? path
      = ((tree.root.follow? parent).bind fun node => node.member? name).map Prod.snd := by
  rw [get?, ends, TreeNode.follow?_append, Option.map_bind]
  exact Option.bind_congr fun node _ => Option.bind_fun_some ((node.member? name).map Prod.snd)

theorem no_member_of_steps {path : FieldPath}
    (other : ∀ parent name, path.steps ≠ parent ++ [.field name]) : tree.entry? path = none := by
  unfold entry?
  split
  next name last =>
    obtain ⟨parent, ends⟩ := List.getLast?_eq_some_iff.1 last
    exact absurd ends (other parent name)
  next => rfl

/-- A path leads through the type of a form's value to the type of the value of the node that it
leads to in the form, whether that node is asked for its type earlier or later.  Where the path
ends in a field, the node's entry may be absent exactly if the property may.  Without a node, and
on a path that does not end in a field, there is no entry. -/
theorem follow?_valueType {asked later : TypeTable}
    (grows : (tree.valueType asked).2.GrowsTo later) (path : FieldPath) :
    (∀ node, tree.get? path = some node → ∀ other,
        (node.valueType other).2.GrowsTo later ∨ later.GrowsTo other →
        later.follow? (tree.valueType asked).1 path.steps = some (node.valueType other).1)
      ∧ (∀ node parent name, tree.get? path = some node → path.steps = parent ++ [.field name] →
        ∃ property, (later.follow? (tree.valueType asked).1 parent).bind
            (fun object => later.property? object name) = some property
          ∧ tree.entry? path = some (property.optional, node))
      ∧ (tree.get? path = none ∨ (∀ parent name, path.steps ≠ parent ++ [.field name]) →
        tree.entry? path = none) := by
  refine ⟨fun node found other order => ?_, fun node parent name found ends => ?_, ?_⟩
  · obtain ⟨first, grown, follows⟩ := TreeNode.follow?_valueType_of_asked found grows
    refine follows.trans (congrArg some ?_)
    have same := (node.valueType_eq grown).1
    rcases order with earlier | after
    · rw [← same, (node.valueType_eq earlier).1]
    · exact (node.valueType_eq (grown.trans after)).1.symm
  · rw [get?_of_steps ends] at found
    obtain ⟨⟨optional, node⟩, entry, rfl⟩ := Option.map_eq_some_iff.1 found
    rw [member_of_steps ends, entry]
    obtain ⟨above, reaches, member⟩ := Option.bind_eq_some_iff.1 entry
    obtain ⟨first, grown, follows⟩ := TreeNode.follow?_valueType_of_asked reaches grows
    obtain ⟨_, _, property⟩ := TreeNode.property?_valueType member grown
    have there : (later.follow? (tree.valueType asked).1 parent).bind
        (fun object => later.property? object name) = _ :=
      (congrArg (Option.bind · fun object => later.property? object name) follows).trans property
    exact ⟨_, there, rfl⟩
  · by_cases ends : ∃ parent name, path.steps = parent ++ [.field name]
    · obtain ⟨parent, name, ends⟩ := ends
      rintro (absent | other)
      · rw [get?_of_steps ends] at absent
        rw [member_of_steps ends]
        exact Option.map_eq_none_iff.1 absent
      · exact absurd ends (other parent name)
    · exact fun _ => no_member_of_steps fun parent name same => ends ⟨parent, name, same⟩

/-- In the type of the form over a person, `friends[]` leads to what the form has there, and
`friends` to a property that may be absent. -/
theorem follow?_valueType_ofPerson :
    (ofPerson.valueType Catalog.person.types).2.follow? (ofPerson.valueType Catalog.person.types).1
        [.field "friends", .element] = some ⟨101⟩
      ∧ ∃ property, ((ofPerson.valueType Catalog.person.types).2.follow?
            (ofPerson.valueType Catalog.person.types).1 []).bind
          (fun object => (ofPerson.valueType Catalog.person.types).2.property? object "friends")
          = some property
        ∧ ofPerson.entry? ⟨[.field "friends"]⟩
          = some (property.optional, .array (.control ⟨101⟩)) := by
  have grows := TypeTable.GrowsTo.refl (ofPerson.valueType Catalog.person.types).2
  constructor
  · exact (follow?_valueType grows ⟨[.field "friends", .element]⟩).1 (.control ⟨101⟩) rfl _
      (Or.inr grows)
  · exact (follow?_valueType grows ⟨[.field "friends"]⟩).2.1 _ [] "friends" rfl rfl

end DerivedForm

end ModelForms
