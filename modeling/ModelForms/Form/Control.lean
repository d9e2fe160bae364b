import ModelForms.Entries
import ModelForms.Hint
import ModelForms.Json.Basic
import ModelForms.Text.Pieces

/-!
# Controls

A form at run time is a tree of controls.  A cell holds one value, a group holds named controls in
the order in which they were added, and an array holds a sequence of controls.  The value of a
group or array is always made from its parts.

A cell that may be null is reset to null.  Any other cell is reset to the value that it was made
with.

`Control.get?` follows a dotted path.  Names of a group and indices of an array are the pieces
between the dots, and empty pieces are skipped.
-/

namespace ModelForms

/-- A control of a single value. -/
structure Cell where
  value : Json
  /-- The value that the cell was made with. -/
  initial : Json
  /-- Whether the cell is reset to its first value and not to null. -/
  nonNullable : Bool
deriving Repr

namespace Cell

/-- A cell with a value. -/
def new (value : Json) (nonNullable : Bool) : Cell := ⟨value, value, nonNullable⟩

/-- The cell with another value. -/
def set (value : Json) (cell : Cell) : Cell := { cell with value := value }

/-- The cell with the value that it is reset to. -/
def reset (cell : Cell) : Cell :=
  { cell with value := if cell.nonNullable then cell.initial else .null }

end Cell

/-- A control. -/
inductive Control where
  | cell (cell : Cell)
  | group (members : List (String × Control))
  | array (items : List Control)
deriving Repr

namespace Control

/-- The kind of a control. -/
def kind : Control → NodeKind
  | .cell _ => .control
  | .group _ => .group
  | .array _ => .array

/-- A group of controls that are added in order. -/
def ofMembers (members : List (String × Control)) : Control := .group (Entries.collect members)

/-! ## Values -/

mutual

/-- The value of a control. -/
def value : Control → Json
  | .cell c => c.value
  | .group members => .object (memberValues members)
  | .array items => .array (itemValues items)
termination_by structural control => control

/-- The values of the members of a group. -/
def memberValues : List (String × Control) → List (String × Json)
  | [] => []
  | (name, control) :: rest => (name, value control) :: memberValues rest
termination_by structural members => members

/-- The values of the items of an array. -/
def itemValues : List Control → List Json
  | [] => []
  | control :: rest => value control :: itemValues rest
termination_by structural items => items

end

mutual

/-- The control with every cell in it reset. -/
def reset : Control → Control
  | .cell c => .cell c.reset
  | .group members => .group (resetMembers members)
  | .array items => .array (resetItems items)
termination_by structural control => control

/-- The members of a group, each reset. -/
def resetMembers : List (String × Control) → List (String × Control)
  | [] => []
  | (name, control) :: rest => (name, reset control) :: resetMembers rest
termination_by structural members => members

/-- The items of an array, each reset. -/
def resetItems : List Control → List Control
  | [] => []
  | control :: rest => reset control :: resetItems rest
termination_by structural items => items

end

/-! ## Navigation -/

/-- The index that a piece of a path denotes: digits, which a plus sign may precede. -/
def indexOf? : List Char → Option Nat
  | '+' :: digits => Text.natOfDigits? digits
  | digits => Text.natOfDigits? digits

/-- The control that a piece of a path leads to. -/
def child? (piece : List Char) : Control → Option Control
  | .group members => members.lookup (String.ofList piece)
  | .array items => (indexOf? piece).bind fun index => items[index]?
  | .cell _ => none

/-- The control that the pieces of a path lead to. -/
def follow? : List (List Char) → Control → Option Control
  | [], control => some control
  | piece :: rest, control => (control.child? piece).bind (follow? rest)

/-- The control at a dotted path. -/
def get? (path : String) (control : Control) : Option Control :=
  control.follow? (Text.nonemptyPieces (· == '.') path.toList)

/-! ## Parts by position -/

/-- A part of a control: a member of a group or an item of an array. -/
inductive Part where
  | member (name : String)
  | item (index : Nat)
deriving DecidableEq, Repr

/-- The control at the end of some parts. -/
def part? : List Part → Control → Option Control
  | [], control => some control
  | .member name :: rest, .group members => (members.lookup name).bind (part? rest)
  | .item index :: rest, .array items => items[index]?.bind (part? rest)
  | _ :: _, _ => none

/-- The control with a change made at the end of some parts.  Nothing changes if nothing is there.
-/
def change (f : Control → Control) : List Part → Control → Control
  | [], control => f control
  | .member name :: rest, .group members => .group (Entries.modify name (change f rest) members)
  | .item index :: rest, .array items => .array (items.modify index (change f rest))
  | _ :: _, control => control

end Control

/-! ## Groups -/

namespace Group

/-- The control of a group at a dotted path.  The piece before the first dot names a member even if
it is empty. -/
def get? (path : String) (members : Entries Control) : Option Control :=
  let text := path.toList
  let name := text.takeWhile (· != '.')
  let rest := (text.dropWhile (· != '.')).tail
  (members.lookup (String.ofList name)).bind fun control => control.get? (String.ofList rest)

/-- Adds a control under a new name, and says whether the name was new. -/
def add (name : String) (control : Control) (members : Entries Control) :
    Bool × Entries Control :=
  if members.hasKey name then (false, members) else (true, members.put name control)

end Group

/-! ## Arrays -/

namespace Items

/-- The items with one more at an index, or at the end if the index lies beyond it. -/
def insert (index : Nat) (control : Control) (items : List Control) : List Control :=
  items.insertIdx (min index items.length) control

end Items

/-- How new cells are made. -/
structure CellStyle where
  /-- Whether a cell of no particular kind is one that is not reset to null. -/
  nonNullable : Bool
deriving DecidableEq, Repr

namespace CellStyle

/-- A cell of no particular kind. -/
def control (style : CellStyle) (value : Json) : Control := .cell (Cell.new value style.nonNullable)

/-- A cell that is not reset to null. -/
def strictControl (_ : CellStyle) (value : Json) : Control := .cell (Cell.new value true)

end CellStyle

end ModelForms
