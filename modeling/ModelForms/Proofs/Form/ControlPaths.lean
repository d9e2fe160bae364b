import ModelForms.Proofs.Form.TreeValues

/-!
# Paths through controls and through values

A dotted path leads to a control of a form and to a part of the form's value, and the part is the
value of the control (`Control.walk?_value_of_get?`).  A step to a child and taking the value
commute (`step?_value`), because the value of a group has a member for each member and the value of
an array an element for each item.  They need not commute at a cell: nothing is below it, but its
value may have parts.  So a path may lead through a value where it leads to no control, but only if
it passes a cell.
-/

namespace ModelForms

namespace Json

/-- The part of a value that a piece of a path leads to: the member of an object that it names, or
the element of an array at the index that it denotes. -/
def step? (piece : List Char) : Json → Option Json
  | .object members => members.lookup (String.ofList piece)
  | .array items => (Control.indexOf? piece).bind fun index => items[index]?
  | _ => none

/-- The part of a value that the pieces of a path lead to. -/
def walk? : List (List Char) → Json → Option Json
  | [], value => some value
  | piece :: rest, value => (value.step? piece).bind (walk? rest)

end Json

namespace Control

variable {control : Control}

theorem itemValues_eq (items : List Control) : itemValues items = items.map value := by
  induction items with
  | nil => rfl
  | cons first rest ih => exact congrArg (first.value :: ·) ih

/-- Below a group and an array, the value of a child is the child of the value. -/
theorem step?_value (inner : control.kind ≠ .control) (piece : List Char) :
    control.value.step? piece = (control.child? piece).map value := by
  cases control with
  | cell c => exact absurd rfl inner
  | group members => exact lookup_memberValues members (String.ofList piece)
  | array items =>
    show ((indexOf? piece).bind fun index => (itemValues items)[index]?)
      = ((indexOf? piece).bind fun index => items[index]?).map value
    rw [itemValues_eq, Option.map_bind]
    exact Option.bind_congr fun index _ => List.getElem?_map

/-- Every control at which a piece of a path is left to follow is a group or an array. -/
def PassesNoCell : List (List Char) → Control → Prop
  | [], _ => True
  | piece :: rest, control =>
      control.kind ≠ .control ∧ ∀ child, control.child? piece = some child → PassesNoCell rest child

/-- A path that leads to a control passes no cell. -/
theorem passesNoCell_of_follow? : ∀ {pieces : List (List Char)} {control found : Control},
    control.follow? pieces = some found → control.PassesNoCell pieces
  | [], _, _, _ => trivial
  | piece :: rest, control, found, follows => by
    obtain ⟨child, step, follows⟩ := Option.bind_eq_some_iff.1 follows
    refine ⟨fun cell => ?_, fun other same => ?_⟩
    · cases control with
      | cell c => cases step
      | group members | array items => cases cell
    · cases step.symm.trans same
      exact passesNoCell_of_follow? follows

/-- Where a path passes no cell, it leads through a form as through its value. -/
theorem walk?_value : ∀ {pieces : List (List Char)} {control : Control},
    control.PassesNoCell pieces → control.value.walk? pieces = (control.follow? pieces).map value
  | [], _, _ => rfl
  | piece :: rest, control, ⟨inner, below⟩ => by
    rw [Json.walk?, follow?, step?_value inner, Option.bind_map, Option.map_bind]
    exact Option.bind_congr fun child found => walk?_value (below child found)

/-- Where a dotted path leads to a control of a form, it leads to the control's value in the value
of the form.  Where it leads to none and has met groups and arrays only, it leads nowhere in the
value either. -/
theorem walk?_value_of_get? (control : Control) (path : String) :
    (∀ found, control.get? path = some found →
      control.value.walk? (Text.nonemptyPieces (· == '.') path.toList) = some found.value)
    ∧ (control.get? path = none →
      control.PassesNoCell (Text.nonemptyPieces (· == '.') path.toList) →
        control.value.walk? (Text.nonemptyPieces (· == '.') path.toList) = none) := by
  unfold get?
  refine ⟨fun found follows => ?_, fun missing passes => ?_⟩
  · rw [walk?_value (passesNoCell_of_follow? follows), follows, Option.map_some]
  · rw [walk?_value passes, missing, Option.map_none]

/-- A form with a price in an array, and a path to it that has an empty piece and a plus sign. -/
theorem walk?_value_of_get?_price :
    let price := cell (.new (.number (.int 3)) false)
    let order := group [("items", array [group [("price", price)]])]
    order.get? "items..+0.price" = some price ∧ order.get? "items.1" = none
      ∧ order.value.walk? ["items".toList, "+0".toList, "price".toList] = some (.number (.int 3))
      ∧ order.value.walk? ["items".toList, "1".toList] = none := by
  intro price order
  have found : order.get? "items..+0.price" = some price := by rfl
  have missing : order.get? "items.1" = none := by rfl
  have passes : order.PassesNoCell ["items".toList, "1".toList] :=
    ⟨nofun, fun items is => by cases is; exact ⟨nofun, nofun⟩⟩
  exact ⟨found, missing, (walk?_value_of_get? order "items..+0.price").1 price found,
    (walk?_value_of_get? order "items.1").2 missing passes⟩

end Control

end ModelForms
