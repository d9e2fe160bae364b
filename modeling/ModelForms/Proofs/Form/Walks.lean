import ModelForms.Form.Walk

/-!
# What a walk reports

A part of a conformance walk comes back to the path that it started at.  What it adds to the list is
the beginning of the mismatches that it meets there, as much of it as there is room for
(`Walk.Reports`).  There is a rule for each way of putting parts together, so by induction on the
tree a whole walk reports the beginning of `Conformance.mismatches` (`Walk.check_eq_take`), whatever
the limit is.

For groups and arrays the mismatches are those of their parts one after the other.
-/

namespace ModelForms

theorem FieldPath.pop_push (path : FieldPath) (step : PathStep) : (path.push step).pop = path := by
  rw [push, pop, List.dropLast_concat]

/-! ## The mismatches part by part -/

namespace Conformance

variable {catalog : Catalog}

/-- The mismatches of one declared member of a group. -/
def memberMismatches (catalog : Catalog) (path : FieldPath) (members : Entries Control)
    (declared : String × (Bool × TreeNode)) : List Mismatch :=
  match members.lookup declared.1 with
  | some control => mismatches catalog (path.field declared.1) declared.2.2 control
  | none => if declared.2.1 then [] else [.missing (path.field declared.1)]

theorem declaredMismatches_eq_flatMap (path : FieldPath) (members : Entries Control)
    (declared : List (String × (Bool × TreeNode))) :
    declaredMismatches catalog path members declared
      = declared.flatMap (memberMismatches catalog path members) := by
  induction declared with
  | nil => rfl
  | cons first rest ih =>
    rw [List.flatMap_cons, ← ih]
    rfl

theorem unexpected_eq_flatMap (path : FieldPath) (declared : Entries (Bool × TreeNode))
    (members : Entries Control) :
    unexpected path declared members = members.keys.flatMap fun name =>
      if declared.hasKey name then [] else [.unexpected (path.field name)] := by
  unfold unexpected
  induction members.keys with
  | nil => rfl
  | cons first rest ih =>
    rw [List.flatMap_cons, List.filter_cons, ← ih]
    cases declared.hasKey first <;> rfl

theorem mismatches_array_eq_flatMap (path : FieldPath) (element : TreeNode) (items : List Control) :
    mismatches catalog path (.array element) (.array items) = items.zipIdx.flatMap fun item =>
      mismatches catalog (path.index item.2) element item.1 := by
  show (items.mapIdx fun index item =>
    mismatches catalog (path.index index) element item).flatten = _
  rw [List.mapIdx_eq_zipIdx_map]
  rfl

end Conformance

namespace Walk

variable {limit : Nat}

/-- A part of a walk comes back to its path, and adds what there is room for of the mismatches that
it meets there. -/
def Reports (limit : Nat) (action : Walking Unit) (mismatches : FieldPath → List Mismatch) : Prop :=
  ∀ walk : Walk, (action walk).2 =
    { walk with reported :=
        walk.reported ++ (mismatches walk.path).take (limit - walk.reported.length) }

/-! ## Putting parts together -/

theorem reports_nothing : Reports limit (pure ()) fun _ => [] := by
  rintro ⟨path, reported⟩
  show Walk.mk path reported = ⟨path, reported ++ _⟩
  rw [List.take_nil, List.append_nil]

theorem reports_report (mismatch : FieldPath → Mismatch) :
    Reports limit (report limit mismatch) fun path => [mismatch path] := by
  rintro ⟨path, reported⟩
  show (if reported.length < limit then Walk.mk path (reported ++ [mismatch path])
    else ⟨path, reported⟩) = ⟨path, reported ++ _⟩
  split
  next room => rw [List.take_of_length_le (by simp; omega)]
  next full => rw [Nat.sub_eq_zero_of_le (Nat.le_of_not_lt full), List.take_zero, List.append_nil]

/-- What the first part adds takes room from the second. -/
theorem Reports.andThen {first second : Walking Unit} {here there : FieldPath → List Mismatch}
    (reportsFirst : Reports limit first here) (reportsSecond : Reports limit second there) :
    Reports limit (do first; second) fun path => here path ++ there path := by
  rintro ⟨path, reported⟩
  show (second (first ⟨path, reported⟩).2).2 = ⟨path, reported ++ _⟩
  have room : limit - (reported ++ (here path).take (limit - reported.length)).length
      = limit - reported.length - (here path).length := by
    rw [List.length_append, List.length_take]
    omega
  rw [reportsFirst, reportsSecond, room, List.append_assoc, ← List.take_append]

theorem Reports.inside {action : Walking Unit} {mismatches : FieldPath → List Mismatch}
    (reports : Reports limit action mismatches) (step : PathStep) :
    Reports limit (Walk.inside step action) fun path => mismatches (path.push step) := by
  rintro ⟨path, reported⟩
  show (fun walk : Walk => { walk with path := walk.path.pop })
    (action ⟨path.push step, reported⟩).2 = _
  rw [reports]
  simp only [FieldPath.pop_push]

theorem reports_forM {α : Type} {action : α → Walking Unit}
    {mismatches : α → FieldPath → List Mismatch} (items : List α)
    (reports : ∀ item, Reports limit (action item) (mismatches item)) :
    Reports limit (items.forM action) fun path => items.flatMap (mismatches · path) := by
  induction items with
  | nil => exact reports_nothing
  | cons first rest ih => exact (reports first).andThen ih

/-! ## The parts of the walk -/

theorem reports_cell (catalog : Catalog) (type : TypeId) (c : Cell) :
    Reports limit (cell catalog limit type c) fun path => Conformance.cell catalog path type c := by
  have value : Reports limit
      (if !catalog.accepts c.value type then report limit (.value · (catalog.typeText type))
        else pure ())
      fun path => if catalog.accepts c.value type then []
        else [.value path (catalog.typeText type)] := by
    cases catalog.accepts c.value type
    · exact reports_report (.value · (catalog.typeText type))
    · exact reports_nothing
  unfold cell Conformance.cell
  cases !c.nonNullable && !catalog.includesNull type
  · exact value
  · exact (reports_report _).andThen value

theorem reports_unexpected (declared : Entries (Bool × TreeNode)) (controls : Entries Control) :
    Reports limit (unexpected limit declared controls) fun path =>
      Conformance.unexpected path declared controls := by
  simp only [Conformance.unexpected_eq_flatMap]
  refine reports_forM controls.keys fun name => ?_
  cases declared.hasKey name
  · exact reports_report fun path => .unexpected (path.field name)
  · exact reports_nothing

mutual

theorem reports_node (catalog : Catalog) : (tree : TreeNode) → (control : Control) →
    Reports limit (node catalog limit tree control) fun path =>
      Conformance.mismatches catalog path tree control
  | .control type, .cell c => reports_cell catalog type c
  | .group declared, .group controls =>
      (reports_members catalog controls declared).andThen (reports_unexpected declared controls)
  | .array element, .array items => by
      simp only [Conformance.mismatches_array_eq_flatMap]
      exact reports_forM items.zipIdx fun item =>
        (reports_node catalog element item.1).inside (.index item.2)
  | .control _, .group _ | .control _, .array _ | .group _, .cell _ | .group _, .array _
  | .array _, .cell _ | .array _, .group _ => reports_report _

theorem reports_members (catalog : Catalog) (controls : Entries Control) :
    (declared : List (String × (Bool × TreeNode))) →
    Reports limit (members catalog limit controls declared) fun path =>
      Conformance.declaredMismatches catalog path controls declared
  | [] => reports_nothing
  | (name, (optional, part)) :: rest => by
      have here : Reports limit
          (match controls.lookup name with
            | some control => node catalog limit part control
            | none => if optional then pure () else report limit .missing)
          fun path => match controls.lookup name with
            | some control => Conformance.mismatches catalog path part control
            | none => if optional then [] else [.missing path] := by
        cases controls.lookup name with
        | some control => exact reports_node catalog part control
        | none =>
          cases optional
          · exact reports_report .missing
          · exact reports_nothing
      exact (here.inside (.field name)).andThen (reports_members catalog controls rest)

end

/-- A walk reports the first of all mismatches, as many as the limit allows. -/
theorem check_eq_take (catalog : Catalog) (limit : Nat) (tree : TreeNode) (control : Control) :
    check catalog limit tree control
      = (Conformance.mismatches catalog .root tree control).take limit := by
  unfold check
  rw [reports_node catalog tree control start]
  rfl

end Walk

end ModelForms
