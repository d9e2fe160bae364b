import ModelForms.Entries
import ModelForms.Number.Shortest

/-!
# JSON values

Values of forms, grouping hints and model documents are JSON.  An object is a list of members in
their order, and a number is an integer or a double: `1` and `1.0` are different values with equal
magnitude, and each is written back as it was read.
-/

namespace ModelForms

/-- A JSON number. -/
inductive JsonNumber where
  /-- A number written without point or exponent, in the range of 64-bit integers. -/
  | int (value : Int)
  /-- Any other number. -/
  | float (value : Double)
deriving DecidableEq, Repr, Inhabited

namespace JsonNumber

/-- The nearest double. -/
def toDouble : JsonNumber → Double
  | .int i => Double.ofInt i
  | .float d => d

/-- The text of a number. -/
def text : JsonNumber → String
  | .int i => toString i
  | .float d => d.jsonText

end JsonNumber

/-- A JSON value. -/
inductive Json where
  | null
  | bool (value : Bool)
  | number (value : JsonNumber)
  | string (value : String)
  | array (items : List Json)
  | object (members : List (String × Json))
deriving Repr, Inhabited

namespace Json

mutual

/-- Whether two values are the same: items and members are compared in their order. -/
def same : Json → Json → Bool
  | .null, .null => true
  | .bool a, .bool b => a == b
  | .number a, .number b => a == b
  | .string a, .string b => a == b
  | .array as, .array bs => sameItems as bs
  | .object as, .object bs => sameMembers as bs
  | _, _ => false

@[inherit_doc same]
def sameItems : List Json → List Json → Bool
  | [], [] => true
  | a :: as, b :: bs => same a b && sameItems as bs
  | _, _ => false

@[inherit_doc same]
def sameMembers : List (String × Json) → List (String × Json) → Bool
  | [], [] => true
  | (key, a) :: as, (key', b) :: bs => key == key' && same a b && sameMembers as bs
  | _, _ => false

end

mutual

theorem same_iff : ∀ a b : Json, same a b = true ↔ a = b
  | .array as, .array bs => by simp [same, sameItems_iff as bs]
  | .object as, .object bs => by simp [same, sameMembers_iff as bs]
  | .null, b | .bool _, b | .number _, b | .string _, b => by cases b <;> simp [same]
  | .array _, .null | .array _, .bool _ | .array _, .number _ | .array _, .string _
  | .array _, .object _ => by simp [same]
  | .object _, .null | .object _, .bool _ | .object _, .number _ | .object _, .string _
  | .object _, .array _ => by simp [same]

theorem sameItems_iff : ∀ as bs : List Json, sameItems as bs = true ↔ as = bs
  | [], bs => by cases bs <;> simp [sameItems]
  | _ :: _, [] => by simp [sameItems]
  | a :: as, b :: bs => by simp [sameItems, same_iff a b, sameItems_iff as bs]

theorem sameMembers_iff : ∀ as bs : List (String × Json), sameMembers as bs = true ↔ as = bs
  | [], bs => by cases bs <;> simp [sameMembers]
  | _ :: _, [] => by simp [sameMembers]
  | (key, a) :: as, (key', b) :: bs => by
      simp [sameMembers, same_iff a b, sameMembers_iff as bs]

end

instance : DecidableEq Json := fun a b =>
  decidable_of_decidable_of_iff (p := same a b = true) (same_iff a b)

/-- Whether a value is `null`. -/
def isNull : Json → Bool
  | .null => true
  | _ => false

/-- The member of an object. -/
def member? (key : String) : Json → Option Json
  | .object members => members.lookup key
  | _ => none

/-- The element of an array. -/
def element? (index : Nat) : Json → Option Json
  | .array items => items[index]?
  | _ => none

/-- An object with the given members, the last value of a repeated key counting. -/
def ofMembers (members : List (String × Json)) : Json := .object (Entries.collect members)

end Json

end ModelForms
