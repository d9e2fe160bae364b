import ModelForms.Proofs.Form.CheckedValues
import ModelForms.Proofs.Form.Walks

/-!
# Defects

A mismatch says what is wrong at one place of a form.  `Flaw` lists what can be wrong with a control
where a tree has a node, apart from what is wrong with the parts of the control.  `Defect` adds the
place: the same steps lead from the tree to the node and from the form to the control.  A member
that is missing or not declared is a flaw of the group that it belongs to.

The mismatches that a check lists are the defects and nothing else (`mem_mismatches_iff_defect`).
The induction is on the tree, along the steps that lead further in the tree and in the form at once
(`Leads`).  No step does where a control is of another kind than its node, so that this is the only
defect there or below (`Defect.eq_of_kind_ne`).
-/

namespace ModelForms

namespace Control

/-- No group in a control has two members of one name. -/
inductive Distinct : Control → Prop
  | cell (c : Cell) : Distinct (.cell c)
  | group {members : List (String × Control)} (names : (Entries.keys members).Nodup)
      (parts : ∀ m ∈ members, Distinct m.2) : Distinct (.group members)
  | array {items : List Control} (parts : ∀ item ∈ items, Distinct item) : Distinct (.array items)

/-- The members of a group. -/
def members? : Control → Option (Entries Control)
  | .group members => some members
  | _ => none

/-- The control one step below. -/
def step? : Control → PathStep → Option Control
  | .group members, .field name => members.lookup name
  | .array items, .index index => items[index]?
  | _, _ => none

/-- The control at the end of some steps. -/
def at? : Control → List PathStep → Option Control
  | control, [] => some control
  | control, step :: rest => (control.step? step).bind fun below => below.at? rest
termination_by structural _ steps => steps

end Control

/-- What is wrong with a control at a path, where a tree has a node, apart from what is wrong with
its parts. -/
inductive Flaw (catalog : Catalog) (path : FieldPath) : TreeNode → Control → Mismatch → Prop
  /-- A required member is absent. -/
  | missing {declared : List (String × (Bool × TreeNode))} {members : List (String × Control)}
      {name : String} {node : TreeNode} (required : declared.lookup name = some (false, node))
      (absent : members.lookup name = none) :
      Flaw catalog path (.group declared) (.group members) (.missing (path.field name))
  /-- A member is there that is not declared. -/
  | unexpected {declared : List (String × (Bool × TreeNode))} {members : List (String × Control)}
      {name : String} {control : Control} (present : members.lookup name = some control)
      (undeclared : declared.lookup name = none) :
      Flaw catalog path (.group declared) (.group members) (.unexpected (path.field name))
  /-- The control is of another kind than the node. -/
  | kind {node : TreeNode} {control : Control} (differ : node.kind ≠ control.kind) :
      Flaw catalog path node control (.kind path node.kind control.kind)
  /-- A cell may be null and its type has no `null`. -/
  | nullable {type : TypeId} {c : Cell} (mayBeNull : c.nonNullable = false)
      (without : catalog.includesNull type = false) :
      Flaw catalog path (.control type) (.cell c) (.nullable path)
  /-- The value of a cell is none of its type. -/
  | value {type : TypeId} {c : Cell} (refused : catalog.accepts c.value type = false) :
      Flaw catalog path (.control type) (.cell c) (.value path (catalog.typeText type))

/-- A mismatch of a form at a path is what is wrong with one control of it.  The same steps lead to
the control in the form and to its node in the tree. -/
def Defect (catalog : Catalog) (path : FieldPath) (tree : TreeNode) (form : Control)
    (mismatch : Mismatch) : Prop :=
  ∃ steps node control, tree.follow? steps = some node ∧ form.at? steps = some control
    ∧ Flaw catalog ⟨path.steps ++ steps⟩ node control mismatch

variable {catalog : Catalog} {path : FieldPath} {tree node : TreeNode} {form control : Control}
  {step : PathStep} {mismatch : Mismatch}

/-! ## Steps in a tree and a form -/

theorem FieldPath.push_append (path : FieldPath) (step : PathStep) (rest : List PathStep) :
    (path.push step).steps ++ rest = path.steps ++ step :: rest := by
  rw [push, List.append_assoc, List.singleton_append]

/-- A step leads from a tree and a form to a node and a control.  It goes to a member of two groups
or to an item of two arrays. -/
inductive Leads : PathStep → TreeNode → Control → TreeNode → Control → Prop
  | member {declared : List (String × (Bool × TreeNode))} {members : List (String × Control)}
      {name : String} {optional : Bool} {node : TreeNode} {control : Control}
      (found : declared.lookup name = some (optional, node))
      (present : members.lookup name = some control) :
      Leads (.field name) (.group declared) (.group members) node control
  | item {element : TreeNode} {items : List Control} {index : Nat} {control : Control}
      (present : items[index]? = some control) :
      Leads (.index index) (.array element) (.array items) element control

theorem leads_iff : Leads step tree form node control
    ↔ tree.step? step = some node ∧ form.step? step = some control := by
  constructor
  · rintro (⟨found, present⟩ | ⟨present⟩)
    · exact ⟨Option.map_eq_some_iff.2 ⟨_, found, rfl⟩, present⟩
    · exact ⟨rfl, present⟩
  · rintro ⟨found, present⟩
    cases form with
    | cell c => cases step <;> cases present
    | group members =>
      cases step <;> try cases present
      cases tree <;> try cases found
      obtain ⟨_, lookup, rfl⟩ := Option.map_eq_some_iff.1 found
      exact .member lookup present
    | array items =>
      cases step <;> try cases present
      cases tree <;> cases found
      exact .item present

namespace Leads

theorem kind_eq (leads : Leads step tree form node control) : tree.kind = form.kind := by
  cases leads <;> rfl

theorem distinct_node (leads : Leads step tree form node control) (distinct : tree.Distinct) :
    node.Distinct := by
  cases leads with
  | member found =>
    cases distinct with
    | group names parts => exact parts _ (Entries.mem_of_lookup found)
  | item =>
    cases distinct with
    | array part => exact part

theorem distinct_control (leads : Leads step tree form node control) (distinct : form.Distinct) :
    control.Distinct := by
  cases leads with
  | member _ present =>
    cases distinct with
    | group names parts => exact parts _ (Entries.mem_of_lookup present)
  | item present =>
    cases distinct with
    | array parts => exact parts _ (List.mem_of_getElem? present)

theorem unique {other : TreeNode} {another : Control}
    (leads : Leads step tree form node control) (leads' : Leads step tree form other another) :
    other = node ∧ another = control := by
  obtain ⟨found, present⟩ := leads_iff.1 leads
  obtain ⟨found', present'⟩ := leads_iff.1 leads'
  rw [found] at found'
  rw [present] at present'
  cases found'
  cases present'
  exact ⟨rfl, rfl⟩

end Leads

/-- Induction over a tree of distinct names, from the nodes that a step leads to. -/
theorem TreeNode.Distinct.leads_induction
    {motive : (tree : TreeNode) → Control → tree.Distinct → Prop}
    (next : ∀ tree form (distinct : tree.Distinct),
      (∀ step node control, (leads : Leads step tree form node control) →
        motive node control (leads.distinct_node distinct)) →
      motive tree form distinct)
    (form : Control) (distinct : tree.Distinct) : motive tree form distinct := by
  induction distinct generalizing form with
  | control type => exact next _ _ _ fun _ _ _ leads => by cases leads
  | group names parts ih =>
    refine next _ _ _ fun _ _ _ leads => ?_
    cases leads with
    | member found => exact ih _ (Entries.mem_of_lookup found) _
  | array part ih =>
    refine next _ _ _ fun _ _ _ leads => ?_
    cases leads with
    | item => exact ih _

/-- A defect of a form is what is wrong with its outermost control, or a defect of a part. -/
theorem defect_iff : Defect catalog path tree form mismatch ↔ Flaw catalog path tree form mismatch
    ∨ ∃ step node control, Leads step tree form node control
      ∧ Defect catalog (path.push step) node control mismatch := by
  constructor
  · rintro ⟨steps, node, control, follows, reaches, flaw⟩
    cases steps with
    | nil =>
      cases follows
      cases reaches
      rw [List.append_nil] at flaw
      exact .inl flaw
    | cons step rest =>
      obtain ⟨below, found, follows⟩ := Option.bind_eq_some_iff.1 follows
      obtain ⟨part, present, reaches⟩ := Option.bind_eq_some_iff.1 reaches
      rw [← FieldPath.push_append] at flaw
      exact .inr ⟨step, below, part, leads_iff.2 ⟨found, present⟩, rest, node, control, follows,
        reaches, flaw⟩
  · rintro (flaw | ⟨step, below, part, leads, rest, node, control, follows, reaches, flaw⟩)
    · exact ⟨[], tree, form, rfl, rfl, by rwa [List.append_nil]⟩
    · obtain ⟨found, present⟩ := leads_iff.1 leads
      rw [FieldPath.push_append] at flaw
      exact ⟨step :: rest, node, control, Option.bind_eq_some_iff.2 ⟨below, found, follows⟩,
        Option.bind_eq_some_iff.2 ⟨part, present, reaches⟩, flaw⟩

/-! ## Paths of defects -/

theorem Flaw.le_path (flaw : Flaw catalog path tree form mismatch) :
    path.steps <+: mismatch.path.steps := by
  cases flaw with
  | missing | unexpected => exact List.prefix_append _ _
  | kind | nullable | value => exact List.prefix_rfl

theorem Defect.le_path (defect : Defect catalog path tree form mismatch) :
    path.steps <+: mismatch.path.steps := by
  obtain ⟨steps, _, _, _, _, flaw⟩ := defect
  exact (List.prefix_append _ _).trans flaw.le_path

/-- What is wrong with a control itself is not reported at a part that it has, or below. -/
theorem Flaw.not_le_path (flaw : Flaw catalog path tree form mismatch)
    (leads : Leads step tree form node control) :
    ¬ (path.push step).steps <+: mismatch.path.steps := by
  intro le
  cases flaw with
  | missing required absent =>
    obtain ⟨rfl, _⟩ := List.cons_prefix_cons.1 ((List.prefix_append_right_inj _).1 le)
    cases leads with
    | member found present => simp [absent] at present
  | unexpected present undeclared =>
    obtain ⟨rfl, _⟩ := List.cons_prefix_cons.1 ((List.prefix_append_right_inj _).1 le)
    cases leads with
    | member found => simp [undeclared] at found
  | kind | nullable | value =>
    have length := le.length_le
    rw [FieldPath.push, List.length_append] at length
    exact absurd length (by simp [Mismatch.path])

/-- At the path of a control of another kind, or below it, there is no other defect. -/
theorem Defect.eq_of_kind_ne {steps : List PathStep}
    (follows : tree.follow? steps = some node) (reaches : form.at? steps = some control)
    (differ : node.kind ≠ control.kind) (defect : Defect catalog path tree form mismatch)
    (le : path.steps ++ steps <+: mismatch.path.steps) :
    mismatch = .kind ⟨path.steps ++ steps⟩ node.kind control.kind := by
  induction steps generalizing path tree form with
  | nil =>
    cases follows
    cases reaches
    obtain flaw | ⟨_, _, _, leads, _⟩ := defect_iff.1 defect
    · rw [List.append_nil]
      cases flaw <;> first | rfl | exact absurd rfl differ
    · exact absurd leads.kind_eq differ
  | cons step rest ih =>
    obtain ⟨below, found, follows⟩ := Option.bind_eq_some_iff.1 follows
    obtain ⟨part, present, reaches⟩ := Option.bind_eq_some_iff.1 reaches
    have leads := leads_iff.2 ⟨found, present⟩
    rw [← FieldPath.push_append] at le ⊢
    obtain flaw | ⟨step', _, _, leads', defect⟩ := defect_iff.1 defect
    · exact absurd ((List.prefix_append _ _).trans le) (flaw.not_le_path leads)
    · have same : (path.push step').steps = (path.push step).steps :=
        (List.prefix_of_prefix_length_le defect.le_path ((List.prefix_append _ _).trans le)
          (by simp [FieldPath.push])).eq_of_length (by simp [FieldPath.push])
      cases (List.append_cancel_left same : [step'] = [step])
      obtain ⟨rfl, rfl⟩ := leads.unique leads'
      exact ih follows reaches defect le

/-! ## The mismatches are the defects -/

theorem mem_cell_iff_flaw {type : TypeId} {c : Cell} :
    mismatch ∈ Conformance.cell catalog path type c
      ↔ Flaw catalog path (.control type) (.cell c) mismatch := by
  constructor
  · intro mem
    rcases List.mem_append.1 mem with mem | mem
    · split at mem
      next found =>
        simp only [Bool.and_eq_true, Bool.not_eq_true'] at found
        cases List.mem_singleton.1 mem
        exact .nullable found.1 found.2
      next => cases mem
    · split at mem
      next => cases mem
      next refused =>
        cases List.mem_singleton.1 mem
        exact .value (Bool.eq_false_iff.2 refused)
  · intro flaw
    cases flaw with
    | kind differ => exact absurd rfl differ
    | nullable mayBeNull without => simp [Conformance.cell, mayBeNull, without]
    | value refused => simp [Conformance.cell, refused]

theorem mem_unexpected_iff {declared : Entries (Bool × TreeNode)} {members : Entries Control} :
    mismatch ∈ Conformance.unexpected path declared members
      ↔ ∃ name, (∃ control, members.lookup name = some control) ∧ declared.lookup name = none
        ∧ mismatch = .unexpected (path.field name) := by
  have isKey (name : String) :
      name ∈ members.keys ↔ ∃ control, members.lookup name = some control := by
    rw [← Entries.hasKey_iff, Entries.hasKey, Option.isSome_iff_exists]
  have undeclared (name : String) :
      (!declared.hasKey name) = true ↔ declared.lookup name = none := by
    rw [Entries.hasKey, Bool.not_eq_true', Option.isSome_eq_false_iff, Option.isNone_iff_eq_none]
  simp only [Conformance.unexpected, List.mem_map, List.mem_filter, isKey, undeclared, and_assoc,
    eq_comm (a := mismatch)]

theorem mismatches_of_kind_ne (differ : tree.kind ≠ form.kind) :
    Conformance.mismatches catalog path tree form = [.kind path tree.kind form.kind] := by
  cases tree <;> cases form <;> first | rfl | exact absurd rfl differ

/-- Below two groups there are the defects of the members that are in both. -/
theorem mem_mismatches_group_iff {declared : List (String × (Bool × TreeNode))}
    {members : List (String × Control)} (names : (Entries.keys declared).Nodup) :
    mismatch ∈ Conformance.mismatches catalog path (.group declared) (.group members)
      ↔ Flaw catalog path (.group declared) (.group members) mismatch
        ∨ ∃ step node control, Leads step (.group declared) (.group members) node control
          ∧ mismatch ∈ Conformance.mismatches catalog (path.push step) node control := by
  show mismatch ∈ Conformance.declaredMismatches catalog path members declared
    ++ Conformance.unexpected path declared members ↔ _
  rw [List.mem_append, Conformance.mem_declaredMismatches_iff, mem_unexpected_iff]
  constructor
  · rintro (⟨⟨name, optional, node⟩, mem, ⟨control, present, below⟩ | ⟨absent, required, rfl⟩⟩
      | ⟨name, ⟨control, present⟩, undeclared, rfl⟩)
    · exact .inr ⟨_, _, _, .member (Entries.lookup_of_mem names mem) present, below⟩
    · cases required
      exact .inl (.missing (Entries.lookup_of_mem names mem) absent)
    · exact .inl (.unexpected present undeclared)
  · rintro (flaw | ⟨_, _, _, leads, below⟩)
    · cases flaw with
      | missing required absent =>
        exact .inl ⟨_, Entries.mem_of_lookup required, .inr ⟨absent, rfl, rfl⟩⟩
      | unexpected present undeclared => exact .inr ⟨_, ⟨_, present⟩, undeclared, rfl⟩
      | kind differ => exact absurd rfl differ
    · cases leads with
      | member found present =>
        exact .inl ⟨_, Entries.mem_of_lookup found, .inl ⟨_, present, below⟩⟩

/-- The mismatches of a form are what is wrong with its outermost control, and the mismatches of its
parts. -/
theorem mem_mismatches_iff (distinct : tree.Distinct) :
    mismatch ∈ Conformance.mismatches catalog path tree form
      ↔ Flaw catalog path tree form mismatch
        ∨ ∃ step node control, Leads step tree form node control
          ∧ mismatch ∈ Conformance.mismatches catalog (path.push step) node control := by
  by_cases same : tree.kind = form.kind
  · cases distinct with
    | control type =>
      cases form <;> cases same
      refine mem_cell_iff_flaw.trans (or_iff_left ?_).symm
      rintro ⟨_, _, _, leads, _⟩
      cases leads
    | group names parts =>
      cases form <;> cases same
      exact mem_mismatches_group_iff names
    | array part =>
      cases form <;> cases same
      rw [Conformance.mem_mismatches_array_iff]
      constructor
      · rintro ⟨index, control, present, below⟩
        exact .inr ⟨_, _, _, .item present, below⟩
      · rintro (flaw | ⟨_, _, _, leads, below⟩)
        · cases flaw with
          | kind differ => exact absurd rfl differ
        · cases leads with
          | item present => exact ⟨_, _, present, below⟩
  · rw [mismatches_of_kind_ne same, List.mem_singleton]
    constructor
    · rintro rfl
      exact .inl (.kind same)
    · rintro (flaw | ⟨_, _, _, leads, _⟩)
      · cases flaw <;> first | rfl | exact absurd rfl same
      · exact absurd leads.kind_eq same

theorem mem_mismatches_iff_defect (distinct : tree.Distinct) :
    mismatch ∈ Conformance.mismatches catalog path tree form
      ↔ Defect catalog path tree form mismatch := by
  induction form, distinct using TreeNode.Distinct.leads_induction generalizing path with
  | next tree form distinct ih =>
    rw [mem_mismatches_iff distinct, defect_iff]
    refine or_congr_right (exists_congr fun step => exists_congr fun node =>
      exists_congr fun control => and_congr_right fun leads => ?_)
    exact ih step node control leads

end ModelForms
