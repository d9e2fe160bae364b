import ModelForms.Bounds.Depth
import ModelForms.Json.Basic
import ModelForms.Types.Nullability

/-!
# Values of a type

`Catalog.accepts` says whether a JSON value is one of a type.  JSON has no absent value, so
`undefined` is written as `null`, and a member that is missing counts as absent.  A date is a text
or a number, a big integer is an integer or a text of digits, and a leaf is anything but `null`.
An object has no members but those of its type.

Each step into a value, into a member of a union and from a reference to its model is one level,
and no value is matched over more than a fixed number of levels.  The recursion goes along the
levels that are left.  Matching also remembers the names of members that it has looked up in a
type.
-/

namespace ModelForms

namespace Intrinsic

/-- Whether a text is an integer: digits after an optional minus sign. -/
def isIntegerText (text : String) : Bool :=
  match text.toList with
  | '-' :: digits => !digits.isEmpty && digits.all Char.isDigit
  | digits => !digits.isEmpty && digits.all Char.isDigit

/-- Whether a value is one of an intrinsic type. -/
def accepts : Intrinsic → Json → Bool
  | .unknown, _ => true
  | .null, .null | .undefined, .null => true
  | .boolean, .bool _ => true
  | .number, .number _ => true
  | .string, .string _ => true
  | .bigint, .number (.int _) => true
  | .bigint, .string text => isIntegerText text
  | .date, .string _ | .date, .number _ => true
  | _, _ => false

end Intrinsic

/-- Whether a value is a literal. -/
def Literal.accepts : Literal → Json → Bool
  | .string s, .string t => s = t
  | .number d, .number n => n.toDouble.sameValue d
  | .boolean a, .bool b => a = b
  | _, _ => false

namespace Catalog

/-- Whether a type includes `null`, references followed. -/
def includesNull (catalog : Catalog) (type : TypeId) : Bool :=
  let members := catalog.alternatives type
  members.contains TypeId.null || members.contains TypeId.unknown

/-- Whether a member of a type may be missing although it is not declared so. -/
def allowsAbsence (catalog : Catalog) (type : TypeId) : Bool :=
  let target := catalog.resolved type
  match catalog.types.unionMembers? target with
  | some members => members.contains TypeId.undefined
  | none => target == TypeId.undefined || target == TypeId.unknown

end Catalog

/-- The state of matching one value. -/
structure MatchState where
  depth : Depth
  /-- The names looked up in types, the last one first. -/
  names : List String
deriving Repr

/-- The state before anything is matched. -/
def MatchState.start : MatchState := ⟨Depth.forWalk .matching, []⟩

/-- A part of matching. -/
abbrev Matching := StateM MatchState

namespace Matching

/-- Decides something one level further in, where no level left means no. -/
def withinLevel (action : Matching Bool) : Matching Bool := do
  let entered ← modifyGet fun state =>
    let (entered, depth) := state.depth.enter
    (entered, { state with depth := depth })
  if entered then
    let result ← action
    modify fun state => { state with depth := state.depth.leave }
    return result
  else return false

/-- Whether a type has a property with the name of a member. -/
def isDeclared (properties : List Property) (name : String) : Matching Bool := do
  modify fun state => { state with names := name :: state.names }
  return properties.any (·.name == name)

/-- Whether a value suits a property, given how the value of a member is matched. -/
def property (catalog : Catalog) (below : Json → TypeId → Matching Bool)
    (members : Entries Json) (p : Property) : Matching Bool :=
  match members.lookup p.name with
  | some value => below value p.type
  | none => return p.optional || catalog.allowsAbsence p.type

/-- Whether members are those of an object: first the declared ones are matched, then the others are
looked for. -/
def object (catalog : Catalog) (below : Json → TypeId → Matching Bool)
    (members : Entries Json) (properties : List Property) : Matching Bool := do
  if ← properties.allM (property catalog below members) then
    members.keys.allM (isDeclared properties)
  else return false

/-- Whether a value is one of a type, given how the values and types one level further in are
matched. -/
def valueStep (catalog : Catalog) (below : Json → TypeId → Matching Bool) (value : Json)
    (type : TypeId) : Matching Bool :=
  withinLevel do
    match catalog.types.lookup type with
    | none => return false
    | some (.intrinsic k) => return k.accepts value
    | some (.literal literal) => return literal.accepts value
    | some (.leaf _) => return !value.isNull
    | some (.object properties) =>
        match value with
        | .object members => object catalog below members properties
        | _ => return false
    | some (.array element) =>
        match value with
        | .array items => items.allM fun item => below item element
        | _ => return false
    | some (.union members) => members.anyM fun member => below value member
    | some (.reference definition) =>
        match catalog.models.body? definition with
        | some body => below value body
        | none => return false

/-- Whether a value is one of a type, over `levels` levels.  The counter allows no more, so what
would be done where none are left does not matter. -/
def value (catalog : Catalog) : (levels : Nat) → Json → TypeId → Matching Bool
  | 0 => valueStep catalog fun _ _ => return false
  | levels + 1 => valueStep catalog (value catalog levels)

end Matching

namespace Catalog

/-- Matches a value against a type, and gives the state that matching ends in. -/
def matchValue (catalog : Catalog) (value : Json) (type : TypeId) : Bool × MatchState :=
  Matching.value catalog WalkKind.matching.maxDepth value type .start

/-- Whether a value is one of a type. -/
def accepts (catalog : Catalog) (value : Json) (type : TypeId) : Bool :=
  (catalog.matchValue value type).1

end Catalog

end ModelForms
