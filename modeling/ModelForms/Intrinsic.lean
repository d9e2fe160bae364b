/-!
# Intrinsic types

The types that the model language knows by name.  `Date` is an object at run time, but it is never
taken apart.
-/

namespace ModelForms

/-- A type of the model language itself. -/
inductive Intrinsic where
  | never
  | unknown
  | null
  | undefined
  | boolean
  | number
  | string
  | bigint
  | date
deriving DecidableEq, Repr, Inhabited

namespace Intrinsic

/-- Every intrinsic type, in the order of their ids. -/
def all : List Intrinsic :=
  [.never, .unknown, .null, .undefined, .boolean, .number, .string, .bigint, .date]

/-- The name in the model language. -/
def name : Intrinsic → String
  | .never => "never"
  | .unknown => "unknown"
  | .null => "null"
  | .undefined => "undefined"
  | .boolean => "boolean"
  | .number => "number"
  | .string => "string"
  | .bigint => "bigint"
  | .date => "Date"

/-- The place in the order of ids. -/
def index : Intrinsic → Nat
  | .never => 0
  | .unknown => 1
  | .null => 2
  | .undefined => 3
  | .boolean => 4
  | .number => 5
  | .string => 6
  | .bigint => 7
  | .date => 8

/-- The intrinsic type with a name. -/
def ofName? (name : String) : Option Intrinsic := all.find? (·.name == name)

/-- The intrinsic type at a place in the order of ids. -/
def ofIndex? (index : Nat) : Option Intrinsic := all[index]?

theorem ofIndex?_index (k : Intrinsic) : ofIndex? k.index = some k := by cases k <;> rfl

theorem ofName?_name (k : Intrinsic) : ofName? k.name = some k := by cases k <;> decide +kernel

end Intrinsic

end ModelForms
