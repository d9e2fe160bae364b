import Mathlib.Data.List.Nodup
import ModelForms.Proofs.Form.Defects

/-!
# The order of defects

The traversal of a form goes through the declared members of a group in their order and then through
its other members in theirs, and through the items of an array by their indices.  So it comes to a
mismatch when it has taken each step of its path in turn (`TreeNode.turns`), and one mismatch comes
before another if its turns come first, compared one after the other (`Mismatch.Before`).

The mismatches of a group or an array are blocks, one for each step.  Each block is in order by
induction, and the blocks are in the order of the steps (`pairwise_before_flatMap`).  Since nothing
comes before itself, no defect is listed twice.  With that, what a walk reports under a limit is
known exactly (`Walk.check_eq_take_defects`).
-/

namespace ModelForms

/-! ## The order of the traversal -/

namespace TreeNode

/-- The names of the members in the order of the traversal: those that are declared, and then those
of the control that are not. -/
def names (node : TreeNode) (control : Control) : List String :=
  let declared := node.members?.getD []
  declared.keys ++ (Entries.keys (control.members?.getD [])).filter (!declared.hasKey ·)

/-- When the traversal of a control takes a step. -/
def turn (node : TreeNode) (control : Control) : PathStep → Nat
  | .field name => (node.names control).idxOf name
  | .index index => index
  | .element => 0

/-- When the traversal takes each of some steps. -/
def turns (node : TreeNode) (form : Control) : List PathStep → List Nat
  | [] => []
  | step :: rest =>
      node.turn form step :: match node.step? step, form.step? step with
        | some below, some part => below.turns part rest
        | _, _ => []
termination_by structural steps => steps

end TreeNode

namespace Mismatch

/-- Of a cell, whether it may be null is looked at before its value. -/
def turn : Mismatch → List Nat
  | .nullable _ => [0]
  | .value _ _ => [1]
  | _ => []

/-- When the traversal of a form at a path comes to a mismatch. -/
def turns (path : FieldPath) (tree : TreeNode) (form : Control) (mismatch : Mismatch) : List Nat :=
  tree.turns form (mismatch.path.steps.drop path.steps.length) ++ mismatch.turn

/-- The traversal of a form at a path comes to one mismatch before another. -/
def Before (path : FieldPath) (tree : TreeNode) (form : Control) (first second : Mismatch) : Prop :=
  first.turns path tree form < second.turns path tree form

theorem Before.ne {path : FieldPath} {tree : TreeNode} {form : Control} {first second : Mismatch}
    (before : Before path tree form first second) : first ≠ second := by
  rintro rfl
  exact List.lt_irrefl _ before

end Mismatch

variable {catalog : Catalog} {path : FieldPath} {tree node : TreeNode} {form control : Control}
  {step : PathStep} {mismatch : Mismatch}

/-! ## The mismatches are in order -/

/-- The traversal comes to the defects of a part when it takes the step to the part. -/
theorem Defect.turns_of_leads (leads : Leads step tree form node control)
    (defect : Defect catalog (path.push step) node control mismatch) :
    mismatch.turns path tree form
      = tree.turn form step :: mismatch.turns (path.push step) node control := by
  obtain ⟨rest, steps⟩ := defect.le_path
  have below : mismatch.path.steps.drop (path.push step).steps.length = rest := by
    rw [← steps, List.drop_left]
  have above : mismatch.path.steps.drop path.steps.length = step :: rest := by
    rw [← steps, FieldPath.push_append, List.drop_left]
  obtain ⟨found, present⟩ := leads_iff.1 leads
  rw [Mismatch.turns, Mismatch.turns, above, below, TreeNode.turns, found, present,
    List.cons_append]

/-- Mismatches are in order, and the traversal comes to all of them when it takes one step. -/
structure InTurn (path : FieldPath) (tree : TreeNode) (form : Control) (step : PathStep)
    (block : List Mismatch) : Prop where
  ordered : block.Pairwise (Mismatch.Before path tree form)
  heads : ∀ mismatch ∈ block,
    ∃ rest, mismatch.turns path tree form = tree.turn form step :: rest

theorem inTurn_nil : InTurn path tree form step [] := ⟨.nil, nofun⟩

theorem inTurn_singleton (here : mismatch.path = path.push step) :
    InTurn path tree form step [mismatch] := by
  refine ⟨List.pairwise_singleton _ _, fun _ mem => ?_⟩
  cases List.mem_singleton.1 mem
  have steps : mismatch.path.steps.drop path.steps.length = [step] := by
    rw [here, FieldPath.push, List.drop_left]
  rw [Mismatch.turns, steps, TreeNode.turns, List.cons_append]
  exact ⟨_, rfl⟩

theorem inTurn_of_leads (leads : Leads step tree form node control) (distinct : node.Distinct)
    (ordered : (Conformance.mismatches catalog (path.push step) node control).Pairwise
      (Mismatch.Before (path.push step) node control)) :
    InTurn path tree form step (Conformance.mismatches catalog (path.push step) node control) := by
  have turns (mismatch) (mem : mismatch ∈ Conformance.mismatches catalog (path.push step) node
      control) := ((mem_mismatches_iff_defect distinct).1 mem).turns_of_leads leads
  refine ⟨ordered.imp_of_mem fun hfirst hsecond earlier => ?_, fun m mem => ⟨_, turns m mem⟩⟩
  rw [Mismatch.Before, turns _ hfirst, turns _ hsecond]
  exact List.cons_lt_cons_iff.2 (.inr ⟨rfl, earlier⟩)

/-- Blocks in the order of the steps are in order as a whole. -/
theorem pairwise_before_flatMap {α : Type} {blocks : List α} (step : α → PathStep)
    {block : α → List Mismatch}
    (ordered : blocks.Pairwise fun a b => tree.turn form (step a) < tree.turn form (step b))
    (inTurn : ∀ a ∈ blocks, InTurn path tree form (step a) (block a)) :
    (blocks.flatMap block).Pairwise (Mismatch.Before path tree form) := by
  refine List.pairwise_flatMap.2 ⟨fun a mem => (inTurn a mem).ordered, ?_⟩
  refine ordered.imp_of_mem fun ha hb earlier first hfirst second hsecond => ?_
  obtain ⟨_, hfirst⟩ := (inTurn _ ha).heads first hfirst
  obtain ⟨_, hsecond⟩ := (inTurn _ hb).heads second hsecond
  rw [Mismatch.Before, hfirst, hsecond]
  exact List.cons_lt_cons_iff.2 (.inl earlier)

theorem pairwise_before_cell {type : TypeId} {c : Cell} :
    (Conformance.cell catalog path type c).Pairwise
      (Mismatch.Before path (.control type) (.cell c)) := by
  unfold Conformance.cell
  refine List.pairwise_append.2 ⟨?_, ?_, ?_⟩
  · split
    · exact List.pairwise_singleton _ _
    · exact .nil
  · split
    · exact .nil
    · exact List.pairwise_singleton _ _
  · intro first hfirst second hsecond
    split at hfirst
    · split at hsecond
      · cases hsecond
      · cases List.mem_singleton.1 hfirst
        cases List.mem_singleton.1 hsecond
        have here : path.steps.drop path.steps.length = [] := List.drop_length
        simp only [Mismatch.Before, Mismatch.turns, Mismatch.path, here]
        show [0] < [1]
        decide
    · cases hfirst

theorem pairwise_before_array {element : TreeNode} {items : List Control}
    (distinct : element.Distinct)
    (parts : ∀ step node control, Leads step (.array element) (.array items) node control →
      (Conformance.mismatches catalog (path.push step) node control).Pairwise
        (Mismatch.Before (path.push step) node control)) :
    (Conformance.mismatches catalog path (.array element) (.array items)).Pairwise
      (Mismatch.Before path (.array element) (.array items)) := by
  rw [Conformance.mismatches_array_eq_flatMap]
  refine pairwise_before_flatMap (fun item => .index item.2) ?_ fun item mem => ?_
  · have indices : (items.zipIdx.map Prod.snd).Pairwise (· < ·) := by
      rw [List.zipIdx_map_snd]
      exact List.pairwise_lt_range'
    exact List.pairwise_map.1 indices
  · have leads : Leads (.index item.2) (.array element) (.array items) element item.1 :=
      .item (List.mem_zipIdx_iff_getElem?.1 mem)
    exact inTurn_of_leads leads distinct (parts _ _ _ leads)

/-- The mismatches that have to do with one name in two groups. -/
def mismatchesNamed (catalog : Catalog) (path : FieldPath) (declared : Entries (Bool × TreeNode))
    (members : Entries Control) (name : String) : List Mismatch :=
  match declared.lookup name with
  | some member => Conformance.memberMismatches catalog path members (name, member)
  | none => [.unexpected (path.field name)]

section

variable {declared : List (String × (Bool × TreeNode))} {members : List (String × Control)}

theorem mismatches_group_eq_flatMap (names : (Entries.keys declared).Nodup) :
    Conformance.mismatches catalog path (.group declared) (.group members)
      = ((TreeNode.group declared).names (.group members)).flatMap
        (mismatchesNamed catalog path declared members) := by
  have known : declared.flatMap (Conformance.memberMismatches catalog path members)
      = (Entries.keys declared).flatMap (mismatchesNamed catalog path declared members) := by
    rw [Entries.keys, List.flatMap_map]
    refine List.flatMap_congr fun member mem => ?_
    rw [mismatchesNamed, Entries.lookup_of_mem names mem]
  have unknown : Conformance.unexpected path declared members
      = ((Entries.keys members).filter (!Entries.hasKey · declared)).flatMap
        (mismatchesNamed catalog path declared members) := by
    rw [Conformance.unexpected, List.map_eq_flatMap]
    refine List.flatMap_congr fun name mem => ?_
    have undeclared : declared.lookup name = none := by
      simpa [Entries.hasKey] using (List.mem_filter.1 mem).2
    rw [mismatchesNamed, undeclared]
  show Conformance.declaredMismatches catalog path members declared
    ++ Conformance.unexpected path declared members = _
  rw [Conformance.declaredMismatches_eq_flatMap, known, unknown, ← List.flatMap_append]
  rfl

theorem nodup_names (declaredNames : (Entries.keys declared).Nodup)
    (memberNames : (Entries.keys members).Nodup) :
    ((TreeNode.group declared).names (.group members)).Nodup := by
  refine List.nodup_append.2 ⟨declaredNames, memberNames.filter _, ?_⟩
  rintro name isDeclared _ isOther rfl
  have undeclared := (List.mem_filter.1 isOther).2
  rw [Entries.hasKey_iff.2 isDeclared] at undeclared
  cases undeclared

theorem pairwise_before_group (distinct : (TreeNode.group declared).Distinct)
    (memberNames : (Entries.keys members).Nodup)
    (parts : ∀ step node control, Leads step (.group declared) (.group members) node control →
      (Conformance.mismatches catalog (path.push step) node control).Pairwise
        (Mismatch.Before (path.push step) node control)) :
    (Conformance.mismatches catalog path (.group declared) (.group members)).Pairwise
      (Mismatch.Before path (.group declared) (.group members)) := by
  have declaredNames : (Entries.keys declared).Nodup := by
    cases distinct with
    | group names _ => exact names
  rw [mismatches_group_eq_flatMap declaredNames]
  refine pairwise_before_flatMap .field ?_ fun name _ => ?_
  · have names := nodup_names declaredNames memberNames
    refine List.pairwise_iff_getElem.2 fun i j hi hj earlier => ?_
    show List.idxOf _ _ < List.idxOf _ _
    rwa [names.idxOf_getElem, names.idxOf_getElem]
  · unfold mismatchesNamed
    split
    next member found =>
      unfold Conformance.memberMismatches
      split
      next control present =>
        have leads := Leads.member found present
        exact inTurn_of_leads leads (leads.distinct_node distinct) (parts _ _ _ leads)
      next =>
        split
        · exact inTurn_nil
        · exact inTurn_singleton rfl
    next => exact inTurn_singleton rfl

end

theorem pairwise_before_mismatches (treeDistinct : tree.Distinct) (formDistinct : form.Distinct) :
    (Conformance.mismatches catalog path tree form).Pairwise (Mismatch.Before path tree form) := by
  induction form, treeDistinct using TreeNode.Distinct.leads_induction generalizing path with
  | next tree form treeDistinct ih =>
    have parts (step : PathStep) (node : TreeNode) (control : Control)
        (leads : Leads step tree form node control) :
        (Conformance.mismatches catalog (path.push step) node control).Pairwise
          (Mismatch.Before (path.push step) node control) :=
      ih step node control leads (leads.distinct_control formDistinct)
    by_cases same : tree.kind = form.kind
    · cases treeDistinct with
      | control type =>
        cases form <;> cases same
        exact pairwise_before_cell
      | group names below =>
        cases formDistinct with
        | group memberNames _ => exact pairwise_before_group (.group names below) memberNames parts
        | cell => cases same
        | array => cases same
      | array part =>
        cases form <;> cases same
        exact pairwise_before_array part parts
    · rw [mismatches_of_kind_ne same]
      exact List.pairwise_singleton _ _

namespace Walk

/-- A walk reports the first of all defects, as many as the limit allows, in the order of the
traversal and each once.  Where a control is of another kind than its node, that is all there is at
its path or below. -/
theorem check_eq_take_defects {catalog : Catalog} {tree : TreeNode} {form : Control}
    (treeDistinct : tree.Distinct) (formDistinct : form.Distinct) :
    ∃ defects : List Mismatch,
      (∀ mismatch, mismatch ∈ defects ↔ Defect catalog .root tree form mismatch)
      ∧ defects.Nodup
      ∧ defects.Pairwise (Mismatch.Before .root tree form)
      ∧ (∀ path expected found, .kind path expected found ∈ defects → ∀ mismatch ∈ defects,
          path.steps <+: mismatch.path.steps → mismatch = .kind path expected found)
      ∧ ∀ limit, check catalog limit tree form = defects.take limit := by
  have isDefect (mismatch : Mismatch) : mismatch ∈ Conformance.mismatches catalog .root tree form
      ↔ Defect catalog .root tree form mismatch := mem_mismatches_iff_defect treeDistinct
  have ordered : (Conformance.mismatches catalog .root tree form).Pairwise
      (Mismatch.Before .root tree form) := pairwise_before_mismatches treeDistinct formDistinct
  refine ⟨Conformance.mismatches catalog .root tree form, isDefect, ?_, ordered, ?_,
    fun limit => check_eq_take catalog limit tree form⟩
  · exact ordered.imp Mismatch.Before.ne
  · intro path expected found reported mismatch mem le
    obtain ⟨steps, node, control, follows, reaches, flaw⟩ := (isDefect _).1 reported
    cases flaw with
    | kind differ =>
      exact ((isDefect _).1 mem).eq_of_kind_ne follows reaches differ le

/-- The tree of a form for a booking. -/
def booking : TreeNode :=
  .group [("name", (false, .control (.ofIntrinsic .string))),
    ("guests", (false, .array (.group [("age", (false, .control (.ofIntrinsic .number)))])))]

/-- A form that has no name, a guest without a number for an age, one that is no group, and a seat.
-/
def overbooked : Control :=
  .group [("seat", .cell (Cell.new .null false)),
    ("guests", .array [.group [("age", .cell (Cell.new (.string "x") false))],
      .cell (Cell.new .null true)])]

theorem distinct_booking : booking.Distinct := by
  refine .group (by decide) ?_
  simp only [List.mem_cons, List.not_mem_nil, or_false, forall_eq_or_imp, forall_eq]
  refine ⟨.control _, .array (.group (by decide) ?_)⟩
  simpa using TreeNode.Distinct.control _

theorem distinct_overbooked : overbooked.Distinct := by
  refine .group (by decide) ?_
  simp only [List.mem_cons, List.not_mem_nil, or_false, forall_eq_or_imp, forall_eq]
  refine ⟨.cell _, .array ?_⟩
  simp only [List.mem_cons, List.not_mem_nil, or_false, forall_eq_or_imp, forall_eq]
  refine ⟨.group (by decide) ?_, .cell _⟩
  simpa using Control.Distinct.cell _

theorem check_eq_take_defects_booking :
    booking.Distinct ∧ overbooked.Distinct ∧ ∃ defects : List Mismatch,
      (∀ mismatch, mismatch ∈ defects ↔ Defect ⟨.empty, .empty⟩ .root booking overbooked mismatch)
      ∧ defects.Nodup
      ∧ defects.Pairwise (Mismatch.Before .root booking overbooked)
      ∧ (∀ path expected found, .kind path expected found ∈ defects → ∀ mismatch ∈ defects,
          path.steps <+: mismatch.path.steps → mismatch = .kind path expected found)
      ∧ ∀ limit, check ⟨.empty, .empty⟩ limit booking overbooked = defects.take limit :=
  ⟨distinct_booking, distinct_overbooked,
    check_eq_take_defects distinct_booking distinct_overbooked⟩

example : check ⟨.empty, .empty⟩ 4 booking overbooked =
    [.missing ⟨[.field "name"]⟩,
      .nullable ⟨[.field "guests", .index 0, .field "age"]⟩,
      .value ⟨[.field "guests", .index 0, .field "age"]⟩ "number",
      .kind ⟨[.field "guests", .index 1]⟩ .group .control] := rfl

end Walk

end ModelForms
