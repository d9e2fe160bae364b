import ModelForms.Proofs.Form.TreeValues
import ModelForms.Proofs.Json.Pointers
import ModelForms.Proofs.Tree.Guarded

/-!
# Checking values

A value is checked against a form in the shape of controls that follow the tree.  Matching it
against the type of the form's value asks the same in another way, and the two part only where a
member is missing: the check reports a member that is required, and matching lets a member be
missing whose type allows that.

So of a value that the type accepts, the check reports exactly the required members that it leaves
out, and each of them is a control of such a type (`DerivedForm.mismatchesOfValue_of_accepts`).  The
induction is on the levels of matching, of which each node takes one.
-/

namespace ModelForms

namespace TreeNode

/-- No group in a tree has two members of one name. -/
inductive Distinct : TreeNode → Prop
  | control (type : TypeId) : Distinct (.control type)
  | group {members : List (String × (Bool × TreeNode))} (names : (Entries.keys members).Nodup)
      (parts : ∀ m ∈ members, Distinct m.2.2) : Distinct (.group members)
  | array {element : TreeNode} (part : Distinct element) : Distinct (.array element)

/-- A value follows a tree along some steps to a group, and leaves out a member of it that is
required. -/
inductive Lacks : TreeNode → Json → List PathStep → Prop
  | here {declared : List (String × (Bool × TreeNode))} {members : List (String × Json)}
      {name : String} {node : TreeNode} (found : declared.lookup name = some (false, node))
      (absent : members.lookup name = none) :
      Lacks (.group declared) (.object members) [.field name]
  | member {declared : List (String × (Bool × TreeNode))} {members : List (String × Json)}
      {name : String} {optional : Bool} {node : TreeNode} {value : Json} {steps : List PathStep}
      (found : declared.lookup name = some (optional, node))
      (present : members.lookup name = some value) (below : Lacks node value steps) :
      Lacks (.group declared) (.object members) (.field name :: steps)
  | item {element : TreeNode} {items : List Json} {index : Nat} {value : Json}
      {steps : List PathStep} (found : items[index]? = some value)
      (below : Lacks element value steps) :
      Lacks (.array element) (.array items) (.index index :: steps)

/-! ## The type of a tree's value -/

mutual

/-- A type is that of a tree's value. -/
inductive Projects (types : TypeTable) : TreeNode → TypeId → Prop
  | control (type : TypeId) : Projects types (.control type) type
  | group {type : TypeId} {members : List (String × (Bool × TreeNode))}
      {properties : List Property} (found : types.lookup type = some (.object properties))
      (parts : ProjectsMembers types members properties) : Projects types (.group members) type
  | array {type below : TypeId} {element : TreeNode}
      (found : types.lookup type = some (.array below)) (part : Projects types element below) :
      Projects types (.array element) type

/-- The properties are those of the members of a group. -/
inductive ProjectsMembers (types : TypeTable) :
    List (String × (Bool × TreeNode)) → List Property → Prop
  | nil : ProjectsMembers types [] []
  | cons {p : Property} {node : TreeNode} {rest : List (String × (Bool × TreeNode))}
      {properties : List Property} (part : Projects types node p.type)
      (others : ProjectsMembers types rest properties) :
      ProjectsMembers types ((p.name, (p.optional, node)) :: rest) (p :: properties)

end

mutual

theorem projects_valueType : (node : TreeNode) → (table : TypeTable) → {later : TypeTable} →
    (node.valueType table).2.GrowsTo later → Projects later node (node.valueType table).1
  | .control type, _, _ => fun _ => .control type
  | .group members, table, later => fun grows => by
    rw [valueType_group] at grows ⊢
    obtain ⟨growsObject, found⟩ :=
      TypeTable.object_spec (memberTypes members table).1 (memberTypes members table).2
    exact .group (grows.lookup found) (projects_memberTypes members table (growsObject.trans grows))
  | .array element, table, later => fun grows => by
    rw [valueType_array] at grows ⊢
    have growsArray := TypeTable.growsTo_intern (.array (element.valueType table).1)
      (element.valueType table).2
    exact .array (grows.lookup (TypeTable.lookup_intern _ _))
      (projects_valueType element table (growsArray.trans grows))

theorem projects_memberTypes : (members : List (String × (Bool × TreeNode))) →
    (table : TypeTable) → {later : TypeTable} → (memberTypes members table).2.GrowsTo later →
      ProjectsMembers later members (memberTypes members table).1
  | [], _, _ => fun _ => .nil
  | (name, (optional, node)) :: rest, table, later => fun grows => by
    rw [memberTypes_cons] at grows ⊢
    have toRest := growsTo_memberTypes rest (node.valueType table).2
    exact @ProjectsMembers.cons later ⟨name, (node.valueType table).1, optional⟩ _ _ _
      (projects_valueType node table (toRest.trans grows))
      (projects_memberTypes rest (node.valueType table).2 grows)

end

theorem ProjectsMembers.names_eq {types : TypeTable}
    {members : List (String × (Bool × TreeNode))} {properties : List Property} :
    ProjectsMembers types members properties →
      properties.map Property.name = Entries.keys members
  | .nil => rfl
  | .cons _ others => congrArg (_ :: ·) others.names_eq

theorem ProjectsMembers.exists_of_mem {types : TypeTable}
    {members : List (String × (Bool × TreeNode))} {properties : List Property}
    {m : String × (Bool × TreeNode)} (mem : m ∈ members) :
    ProjectsMembers types members properties →
      ∃ p ∈ properties, p.name = m.1 ∧ p.optional = m.2.1 ∧ Projects types m.2.2 p.type
  | .nil => by cases mem
  | .cons part others => by
    rcases List.mem_cons.1 mem with rfl | mem
    · exact ⟨_, List.mem_cons_self, rfl, rfl, part⟩
    · obtain ⟨p, hp, facts⟩ := others.exists_of_mem mem
      exact ⟨p, List.mem_cons_of_mem _ hp, facts⟩

/-! ## Values as controls -/

section

variable {catalog : Catalog} {declared : List (String × (Bool × TreeNode))}

theorem memberControls_eq (name : String) (value : Json) :
    memberControls catalog declared name value =
      (declared.lookup name).map fun m => controlsFor catalog m.2 value := by
  induction declared with
  | nil => rfl
  | cons first rest ih =>
    obtain ⟨key, optional, node⟩ := first
    rw [Entries.lookup_cons, memberControls, ih]
    split <;> rfl

theorem controlsFor_object {members : List (String × Json)}
    (distinct : (Entries.keys members).Nodup) :
    controlsFor catalog (.group declared) (.object members) =
      .group (members.map fun m => (m.1,
        (memberControls catalog declared m.1 m.2).getD (.cell (Cell.new m.2 true)))) := by
  show Control.ofMembers _ = _
  unfold Control.ofMembers
  rw [Entries.collect_eq_self]
  rw [Entries.keys, List.map_map]
  exact distinct

theorem lookup_controlsFor {members : List (String × Json)} {name : String} {optional : Bool}
    {node : TreeNode} (found : declared.lookup name = some (optional, node)) :
    List.lookup name (members.map fun m => (m.1,
        (memberControls catalog declared m.1 m.2).getD (.cell (Cell.new m.2 true))))
      = (members.lookup name).map (controlsFor catalog node) := by
  rw [Entries.lookup_map fun name value =>
    (memberControls catalog declared name value).getD (.cell (Cell.new value true))]
  refine Option.map_congr fun value _ => ?_
  rw [memberControls_eq, found, Option.map_some, Option.getD_some]

end

end TreeNode

namespace Conformance

variable {catalog : Catalog} {path : FieldPath} {mismatch : Mismatch}

theorem mem_declaredMismatches_iff {members : Entries Control}
    {declared : List (String × (Bool × TreeNode))} :
    mismatch ∈ declaredMismatches catalog path members declared
      ↔ ∃ m ∈ declared,
        (∃ control, members.lookup m.1 = some control
          ∧ mismatch ∈ mismatches catalog (path.field m.1) m.2.2 control)
        ∨ (members.lookup m.1 = none ∧ m.2.1 = false ∧ mismatch = .missing (path.field m.1)) := by
  induction declared with
  | nil => simp [declaredMismatches]
  | cons first rest ih =>
    obtain ⟨name, optional, node⟩ := first
    rw [declaredMismatches, List.mem_append, ih]
    simp only [List.mem_cons, or_and_right, exists_or, exists_eq_left]
    refine or_congr_left ?_
    cases members.lookup name with
    | some control => simp
    | none => cases optional <;> simp

theorem mem_mismatches_array_iff {element : TreeNode} {items : List Control} :
    mismatch ∈ mismatches catalog path (.array element) (.array items)
      ↔ ∃ index control, items[index]? = some control
        ∧ mismatch ∈ mismatches catalog (path.index index) element control := by
  show mismatch ∈ (items.mapIdx fun index item =>
    mismatches catalog (path.index index) element item).flatten ↔ _
  rw [List.mem_flatten]
  simp only [List.mem_mapIdx]
  constructor
  · rintro ⟨_, ⟨index, bound, rfl⟩, mem⟩
    exact ⟨index, items[index], List.getElem?_eq_getElem bound, mem⟩
  · rintro ⟨index, control, found, mem⟩
    obtain ⟨bound, rfl⟩ := List.getElem?_eq_some_iff.1 found
    exact ⟨_, ⟨index, bound, rfl⟩, mem⟩

end Conformance

namespace Catalog

/-- Of a type that is neither a union nor a reference, only `undefined` and `unknown` allow that a
member is missing. -/
theorem not_allowsAbsence_of_lookup {catalog : Catalog} {type : TypeId} {entry : TypeEntry}
    (found : catalog.types.lookup type = some entry) (notIntrinsic : ∀ k, entry ≠ .intrinsic k)
    (notUnion : ∀ members, entry ≠ .union members)
    (notReference : ∀ definition, entry ≠ .reference definition) :
    catalog.allowsAbsence type = false := by
  have flat : catalog.types.unionMembers? type = none := by
    cases entry <;> simp_all [TypeTable.unionMembers?]
  have proper : catalog.types.referenced? type = none := by
    cases entry <;> simp_all [TypeTable.referenced?]
  have resolved : catalog.resolved type = type := by
    unfold Catalog.resolved
    rw [resolve_of_referenced?_eq_none proper]
  unfold allowsAbsence
  simp only [resolved, flat, Bool.or_eq_false_iff, beq_eq_false_iff_ne]
  constructor
  · rintro rfl
    cases found
    exact notIntrinsic _ rfl
  · rintro rfl
    cases found
    exact notIntrinsic _ rfl

end Catalog

namespace TreeNode

variable {catalog : Catalog} {levels : Nat} {node : TreeNode} {value : Json} {type : TypeId}

/-- The value of a group is an object that has no strange members; its members are values of their
types, and those that it leaves out may be missing. -/
theorem Projects.of_group {members : List (String × (Bool × TreeNode))}
    (projects : Projects catalog.types (.group members) type)
    (inhabits : catalog.InhabitsWithin (levels + 1) value type) :
    ∃ present : Entries Json, value = .object present
      ∧ (∀ m ∈ members, ∃ part, Projects catalog.types m.2.2 part
        ∧ (∀ v, present.lookup m.1 = some v → catalog.InhabitsWithin levels v part)
        ∧ (present.lookup m.1 = none → m.2.1 = true ∨ catalog.allowsAbsence part = true))
      ∧ ∀ name ∈ present.keys, name ∈ Entries.keys members := by
  cases projects with
  | group found parts =>
    obtain ⟨present, rfl, suits, declared⟩ := (Catalog.suits_object_iff found).1 inhabits
    refine ⟨present, rfl, fun m hm => ?_, fun name hname => ?_⟩
    · obtain ⟨p, hp, hname, hoptional, part⟩ := parts.exists_of_mem hm
      obtain ⟨suits, complete⟩ := suits p hp
      rw [hname] at suits complete
      rw [hoptional] at complete
      exact ⟨p.type, part, suits, complete⟩
    · obtain ⟨p, hp, rfl⟩ := declared name hname
      rw [← parts.names_eq]
      exact List.mem_map_of_mem hp

theorem Projects.of_array {element : TreeNode}
    (projects : Projects catalog.types (.array element) type)
    (inhabits : catalog.InhabitsWithin (levels + 1) value type) :
    ∃ items part, value = .array items ∧ Projects catalog.types element part
      ∧ ∀ item ∈ items, catalog.InhabitsWithin levels item part := by
  cases projects with
  | array found part =>
    obtain ⟨items, rfl, suits⟩ := (Catalog.suits_array_iff found).1 inhabits
    exact ⟨items, _, rfl, part, suits⟩

/-- What may be missing as a value is a control. -/
theorem Projects.eq_control (projects : Projects catalog.types node type)
    (allowed : catalog.allowsAbsence type = true) : node = .control type := by
  cases projects with
  | control => rfl
  | group found =>
    rw [Catalog.not_allowsAbsence_of_lookup found nofun nofun nofun] at allowed
    cases allowed
  | array found =>
    rw [Catalog.not_allowsAbsence_of_lookup found nofun nofun nofun] at allowed
    cases allowed

/-- A required member that a value of the type leaves out is a control whose type allows that. -/
theorem Lacks.allowsAbsence {steps : List PathStep} (lacks : Lacks node value steps)
    (projects : Projects catalog.types node type)
    (inhabits : catalog.InhabitsWithin levels value type) :
    ∃ missing, node.follow? steps = some (.control missing)
      ∧ catalog.allowsAbsence missing = true := by
  induction lacks generalizing levels type with
  | @here declared members name node found absent =>
    cases levels with
    | zero => exact inhabits.elim
    | succ levels =>
      obtain ⟨_, heq, suits, _⟩ := projects.of_group inhabits
      cases heq
      obtain ⟨part, projects, _, complete⟩ := suits _ (Entries.mem_of_lookup found)
      have allowed := (complete absent).resolve_left Bool.false_ne_true
      have isControl := projects.eq_control allowed
      simp only at isControl
      subst isControl
      refine ⟨part, ?_, allowed⟩
      simp [follow?, step?, member?, members?, found]
  | @member declared members name optional node value steps found present below ih =>
    cases levels with
    | zero => exact inhabits.elim
    | succ levels =>
      obtain ⟨_, heq, suits, _⟩ := projects.of_group inhabits
      cases heq
      obtain ⟨part, projects, suits, _⟩ := suits _ (Entries.mem_of_lookup found)
      obtain ⟨missing, follows, allowed⟩ := ih projects (suits value present)
      refine ⟨missing, ?_, allowed⟩
      simpa [follow?, step?, member?, members?, found] using follows
  | @item element items index value steps found below ih =>
    cases levels with
    | zero => exact inhabits.elim
    | succ levels =>
      obtain ⟨_, part, heq, projects, suits⟩ := projects.of_array inhabits
      cases heq
      obtain ⟨missing, follows, allowed⟩ := ih projects (suits value (List.mem_of_getElem? found))
      exact ⟨missing, follows, allowed⟩

theorem mismatches_controlsFor_control {path : FieldPath}
    (accepts : catalog.accepts value type = true) :
    Conformance.mismatches catalog path (.control type) (controlsFor catalog (.control type) value)
      = [] := by
  have cell : controlsFor catalog (.control type) value
      = .cell (Cell.new value (!catalog.includesNull type)) := by
    cases value <;> rfl
  rw [cell]
  show Conformance.cell catalog path type _ = []
  unfold Conformance.cell Cell.new
  simp [accepts]

/-- The mismatches of the controls that follow a tree are the required members that the value leaves
out. -/
def Reports (catalog : Catalog) (node : TreeNode) (value : Json) : Prop :=
  ∀ (path : FieldPath) (mismatch : Mismatch),
    mismatch ∈ Conformance.mismatches catalog path node (controlsFor catalog node value)
      ↔ ∃ steps, Lacks node value steps ∧ mismatch = .missing ⟨path.steps ++ steps⟩

theorem reports_group {declared : List (String × (Bool × TreeNode))}
    {present : List (String × Json)} (names : (Entries.keys declared).Nodup)
    (distinct : (Entries.keys present).Nodup)
    (known : ∀ name ∈ Entries.keys present, name ∈ Entries.keys declared)
    (parts : ∀ m ∈ declared, ∀ v, present.lookup m.1 = some v → Reports catalog m.2.2 v) :
    Reports catalog (.group declared) (.object present) := by
  intro path mismatch
  rw [controlsFor_object distinct]
  have expected : Conformance.unexpected path declared (present.map fun m => (m.1,
      (memberControls catalog declared m.1 m.2).getD (.cell (Cell.new m.2 true)))) = [] := by
    rw [Conformance.unexpected, List.map_eq_nil_iff, List.filter_eq_nil_iff]
    intro name hname
    rw [Entries.keys, List.map_map] at hname
    simpa using Entries.hasKey_iff.2 (known name hname)
  show mismatch ∈ Conformance.declaredMismatches catalog path _ declared
    ++ Conformance.unexpected path declared _ ↔ _
  rw [expected, List.append_nil, Conformance.mem_declaredMismatches_iff]
  constructor
  · rintro ⟨⟨name, optional, node⟩, hm, ⟨control, hcontrol, reported⟩ | ⟨absent, required, rfl⟩⟩
    · have found := Entries.lookup_of_mem names hm
      rw [lookup_controlsFor found] at hcontrol
      obtain ⟨v, hv, rfl⟩ := Option.map_eq_some_iff.1 hcontrol
      obtain ⟨steps, lacks, rfl⟩ := (parts _ hm v hv _ _).1 reported
      exact ⟨.field name :: steps, .member found hv lacks, by
        simp [FieldPath.field, FieldPath.push]⟩
    · have found := Entries.lookup_of_mem names hm
      rw [lookup_controlsFor found, Option.map_eq_none_iff] at absent
      cases required
      exact ⟨[.field name], .here found absent, rfl⟩
  · rintro ⟨_, lacks, rfl⟩
    cases lacks with
    | here found absent =>
      refine ⟨_, Entries.mem_of_lookup found, Or.inr ⟨?_, rfl, rfl⟩⟩
      rw [lookup_controlsFor found, absent, Option.map_none]
    | @member _ _ name optional node v steps found hv lacks =>
      have hm := Entries.mem_of_lookup found
      refine ⟨_, hm, Or.inl ⟨controlsFor catalog node v, ?_, ?_⟩⟩
      · rw [lookup_controlsFor found, hv, Option.map_some]
      · refine (parts _ hm v hv _ _).2 ⟨steps, lacks, ?_⟩
        simp [FieldPath.field, FieldPath.push]

theorem reports_array {element : TreeNode} {items : List Json}
    (parts : ∀ v ∈ items, Reports catalog element v) :
    Reports catalog (.array element) (.array items) := by
  intro path mismatch
  show mismatch ∈ Conformance.mismatches catalog path (.array element)
    (.array (items.map fun item => controlsFor catalog element item)) ↔ _
  rw [Conformance.mem_mismatches_array_iff]
  constructor
  · rintro ⟨index, control, found, reported⟩
    rw [List.getElem?_map] at found
    obtain ⟨v, hv, rfl⟩ := Option.map_eq_some_iff.1 found
    obtain ⟨steps, lacks, rfl⟩ := (parts v (List.mem_of_getElem? hv) _ _).1 reported
    exact ⟨.index index :: steps, .item hv lacks, by simp [FieldPath.index, FieldPath.push]⟩
  · rintro ⟨_, lacks, rfl⟩
    cases lacks with
    | @item _ _ index v steps hv lacks =>
      refine ⟨index, controlsFor catalog element v, ?_, ?_⟩
      · rw [List.getElem?_map, hv, Option.map_some]
      · refine (parts v (List.mem_of_getElem? hv) _ _).2 ⟨steps, lacks, ?_⟩
        simp [FieldPath.index, FieldPath.push]

/-- A value of the type of a tree is reported for nothing but the required members that it leaves
out.  A cell is matched over all levels, so it accepts what was matched over fewer. -/
theorem reports_of_inhabitsWithin (bound : levels ≤ WalkKind.matching.maxDepth)
    (projects : Projects catalog.types node type)
    (inhabits : catalog.InhabitsWithin levels value type) (tree : node.Distinct)
    (distinct : value.Distinct) : Reports catalog node value := by
  induction levels generalizing node value type with
  | zero => exact inhabits.elim
  | succ levels ih =>
    have fewer : levels ≤ WalkKind.matching.maxDepth := by omega
    cases tree with
    | control =>
      cases projects
      intro path mismatch
      rw [mismatches_controlsFor_control (Catalog.accepts_iff.2 (inhabits.mono bound))]
      constructor
      · intro h
        cases h
      · rintro ⟨_, lacks, _⟩
        cases lacks
    | group names parts =>
      obtain ⟨present, rfl, suits, known⟩ := projects.of_group inhabits
      cases distinct with
      | object distinct values =>
      refine reports_group names distinct known fun m hm v hv => ?_
      obtain ⟨part, projects, suits, _⟩ := suits m hm
      exact ih fewer projects (suits v hv) (parts m hm) (values _ (Entries.mem_of_lookup hv))
    | array part =>
      obtain ⟨items, below, rfl, projects, suits⟩ := projects.of_array inhabits
      cases distinct with
      | array values =>
      exact reports_array fun v hv => ih fewer projects (suits v hv) part (values v hv)

end TreeNode

/-! ## Derived forms -/

namespace Expansion

mutual

/-- What is expanded has no two members of one name in a group. -/
theorem Expands.distinct {expansion : Expansion} {types after : TypeTable} {declared : TypeId}
    {hint : Hint} {nullable : Bool} {node : TreeNode} {named : Nat} :
    expansion.Expands types declared hint nullable node named after → node.Distinct
  | .control _ _ _ => .control _
  | .group _ _ _ below => by
    have parts := below.distinct
    exact .group (Entries.nodup_keys_collect _) fun m hm => parts m (Entries.mem_of_mem_collect hm)
  | .array _ _ below => .array below.distinct

theorem ExpandsMembers.distinct {expansion : Expansion} {types after : TypeTable} {hint : Hint}
    {properties : List Property} {members : List (String × (Bool × TreeNode))} {named : Nat} :
    expansion.ExpandsMembers types hint properties members named after →
      ∀ m ∈ members, m.2.2.Distinct
  | .nil => fun _ hm => by cases hm
  | .cons _ head tail => List.forall_mem_cons.2 ⟨head.distinct, tail.distinct⟩

end

end Expansion

namespace DerivedForm

/-- Of a value that the type of the form's value accepts, a check reports nothing but required
controls that the value leaves out and whose type allows that.  It reports nothing exactly if the
value leaves out no required member. -/
theorem mismatchesOfValue_of_accepts {models : Definitions} {mode : Mode} {hint : Hint}
    {model : TypeId} {types after later : TypeTable} {tree : DerivedForm}
    (derives : derive models mode hint model types = (.ok tree, after)) {table : TypeTable}
    (grows : (tree.valueType table).2.GrowsTo later) {value : Json} (distinct : value.Distinct)
    (accepts : Catalog.accepts ⟨later, models⟩ value (tree.valueType table).1 = true) :
    (∀ diagnostic ∈ Conformance.mismatchesOfValue ⟨later, models⟩ tree value,
        ∃ steps missing, diagnostic = (Mismatch.missing ⟨steps⟩).diagnostic
          ∧ tree.root.Lacks value steps ∧ tree.root.follow? steps = some (.control missing)
          ∧ Catalog.allowsAbsence ⟨later, models⟩ missing = true)
      ∧ (Conformance.mismatchesOfValue ⟨later, models⟩ tree value = []
        ↔ ∀ steps, ¬ tree.root.Lacks value steps) := by
  obtain ⟨_, _, _, expands, _⟩ := expands_of_derive derives
  have projects := TreeNode.projects_valueType tree.root table grows
  have inhabits := Catalog.accepts_iff.1 accepts
  have reports := TreeNode.reports_of_inhabitsWithin (Nat.le_refl _) projects inhabits
    expands.distinct distinct .root
  unfold Conformance.mismatchesOfValue Conformance.check
  constructor
  · intro diagnostic reported
    obtain ⟨mismatch, hmem, rfl⟩ := List.mem_map.1 reported
    obtain ⟨steps, lacks, rfl⟩ := (reports mismatch).1 (List.mem_of_mem_take hmem)
    obtain ⟨missing, follows, allowed⟩ := lacks.allowsAbsence projects inhabits
    exact ⟨steps, missing, rfl, lacks, follows, allowed⟩
  · rw [List.map_eq_nil_iff, List.take_eq_nil_iff, or_iff_right (by decide),
      List.eq_nil_iff_forall_not_mem]
    constructor
    · intro nothing steps lacks
      exact nothing _ ((reports _).2 ⟨steps, lacks, rfl⟩)
    · intro complete mismatch reported
      obtain ⟨steps, lacks, _⟩ := (reports mismatch).1 reported
      exact complete steps lacks

/-- The types of one model: `Form` has a property `a` of any value and a property `b` of a text. -/
def looseTypes : TypeTable where
  entries := [.object [⟨"a", TypeId.unknown, false⟩, ⟨"b", .ofIntrinsic .string, false⟩]]
  names := .builtin

@[inherit_doc looseTypes]
def looseModels : Definitions := ⟨[⟨"Form", some ⟨100⟩⟩]⟩

/-- The form over that model. -/
def ofLoose : DerivedForm where
  root := .group [("a", (false, .control TypeId.unknown)),
    ("b", (false, .control (.ofIntrinsic .string)))]
  mode := ⟨.never, .never⟩
  model := ⟨100⟩

theorem derive_loose :
    derive looseModels ⟨.never, .never⟩ .unspecified ⟨100⟩ looseTypes = (.ok ofLoose, looseTypes) :=
  rfl

/-- A value of the form that leaves out `a`. -/
def looseValue : Json := .object [("b", .string "x")]

theorem distinct_looseValue : looseValue.Distinct :=
  .object (by decide) (by simpa using Json.Distinct.string "x")

theorem mismatchesOfValue_of_accepts_loose :
    Catalog.accepts ⟨(ofLoose.valueType looseTypes).2, looseModels⟩ looseValue
        (ofLoose.valueType looseTypes).1 = true
      ∧ ∀ diagnostic ∈ Conformance.mismatchesOfValue
          ⟨(ofLoose.valueType looseTypes).2, looseModels⟩ ofLoose looseValue,
        ∃ steps missing, diagnostic = (Mismatch.missing ⟨steps⟩).diagnostic
          ∧ ofLoose.root.Lacks looseValue steps
          ∧ ofLoose.root.follow? steps = some (.control missing)
          ∧ Catalog.allowsAbsence ⟨(ofLoose.valueType looseTypes).2, looseModels⟩ missing = true :=
  ⟨rfl, (mismatchesOfValue_of_accepts derive_loose (.refl _) distinct_looseValue rfl).1⟩

/-- A value that the type of the form's value accepts may be reported all the same. -/
theorem not_forall_mismatchesOfValue_eq_nil :
    ¬ ∀ (models : Definitions) (mode : Mode) (hint : Hint) (model : TypeId)
      (types after : TypeTable) (tree : DerivedForm) (value : Json),
      Catalog.WellFormed ⟨types, models⟩ → derive models mode hint model types = (.ok tree, after) →
      value.Distinct →
      Catalog.accepts ⟨(tree.valueType after).2, models⟩ value (tree.valueType after).1 = true →
      Conformance.mismatchesOfValue ⟨(tree.valueType after).2, models⟩ tree value = [] := by
  intro always
  have nothing := always looseModels ⟨.never, .never⟩ .unspecified ⟨100⟩ looseTypes looseTypes
    ofLoose looseValue (by decide) derive_loose distinct_looseValue rfl
  have reported : (Mismatch.missing (FieldPath.root.field "a")).diagnostic
      ∈ Conformance.mismatchesOfValue ⟨(ofLoose.valueType looseTypes).2, looseModels⟩ ofLoose
        looseValue := by
    decide
  rw [nothing] at reported
  cases reported

end DerivedForm

end ModelForms
