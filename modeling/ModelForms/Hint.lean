import ModelForms.Diagnostic
import ModelForms.FieldPath
import ModelForms.Json.Text
import ModelForms.Location

/-!
# Grouping hints

A hint overrides what a position of a model becomes in the form.  It says nothing, names the kind of
node outright, or describes what lies below: hints for the fields make the position a group, a hint
for the elements makes it an array.

In JSON a kind is its name, `null` says nothing, an object holds the hints for the fields, and an
array of one element holds the hint for the elements.
-/

namespace ModelForms

/-- The kinds of node in a form. -/
inductive NodeKind where
  | group
  | array
  | control
deriving DecidableEq, Repr, Inhabited

namespace NodeKind

/-- The name of a kind. -/
def name : NodeKind → String
  | .group => "group"
  | .array => "array"
  | .control => "control"

/-- The kind with a name. -/
def ofName? (name : String) : Option NodeKind :=
  [NodeKind.group, .array, .control].find? (·.name == name)

/-- Whether nodes of a kind have nodes below them. -/
def isStructural : NodeKind → Bool
  | .group | .array => true
  | .control => false

end NodeKind

/-- What a hint says about a position and what lies below it. -/
inductive Hint where
  /-- Nothing. -/
  | unspecified
  /-- The position has this kind. -/
  | kind (kind : NodeKind)
  /-- The position is a group, with hints for some of its fields. -/
  | fields (fields : List (String × Hint))
  /-- The position is an array, with a hint for its elements. -/
  | elements (element : Hint)
deriving Repr, Inhabited

namespace Hint

/-- The kind that a hint asks for, outright or by what it says about the positions below. -/
def kind? : Hint → Option NodeKind
  | .unspecified => none
  | .kind k => some k
  | .fields _ => some .group
  | .elements _ => some .array

/-- Whether a hint says nothing. -/
def isUnspecified : Hint → Bool
  | .unspecified => true
  | _ => false

/-- Whether a hint describes the positions below.  Such hints are finite, so an expansion that
follows them ends. -/
def describesBelow : Hint → Bool
  | .fields _ | .elements _ => true
  | _ => false

/-- The hint for a field. -/
def field (hint : Hint) (name : String) : Hint :=
  match hint with
  | .fields hints => (hints.lookup name).getD .unspecified
  | _ => .unspecified

/-- The hint for the elements. -/
def element : Hint → Hint
  | .elements below => below
  | _ => .unspecified

/-- The fields that a hint speaks of, in order. -/
def namedFields : Hint → List String
  | .fields hints => hints.map Prod.fst
  | _ => []

/-- The hint at the end of a walk through fields and elements. -/
def follow (hint : Hint) (steps : List PathStep) : Hint :=
  steps.foldl (fun hint step => match step with
    | .field name => hint.field name
    | _ => hint.element) hint

end Hint

/-! ## Reading -/

/-- Why a JSON value is no hint. -/
inductive HintFault where
  /-- A text that names no kind. -/
  | unknownKind (name : String)
  /-- An array that does not have one element. -/
  | elementCount (count : Nat)
  /-- A truth value or a number. -/
  | notAHint (value : Json)
deriving Repr

/-- The text of the fault. -/
def HintFault.message : HintFault → String
  | .unknownKind name => "expected 'group', 'array' or 'control', found '" ++ name ++ "'"
  | .elementCount count =>
      "an element hint must be a one-element array, found " ++ toString count ++ " elements"
  | .notAHint value => "expected a hint, found '" ++ value.compact ++ "'"

/-- A value that is no hint, and where it stands. -/
structure HintError where
  location : Location
  fault : HintFault
deriving Repr

namespace Hint

mutual

/-- The hint that a JSON value denotes.  The first value that is no hint is the error. -/
def ofJson (location : Location) : Json → Except HintError Hint
  | .null => .ok .unspecified
  | .string name =>
      match NodeKind.ofName? name with
      | some k => .ok (.kind k)
      | none => .error ⟨location, .unknownKind name⟩
  | .object members => return .fields (← ofMembers location members)
  | .array items =>
      match items with
      | [item] => return .elements (← ofJson (location.child "0") item)
      | _ => .error ⟨location, .elementCount items.length⟩
  | .bool b => .error ⟨location, .notAHint (.bool b)⟩
  | .number n => .error ⟨location, .notAHint (.number n)⟩
termination_by structural value => value

/-- The hints that the members of an object denote. -/
def ofMembers (location : Location) :
    List (String × Json) → Except HintError (List (String × Hint))
  | [] => .ok []
  | (name, value) :: rest => do
      let hint ← ofJson (location.child name) value
      return (name, hint) :: (← ofMembers location rest)
termination_by structural members => members

end

end Hint

end ModelForms
