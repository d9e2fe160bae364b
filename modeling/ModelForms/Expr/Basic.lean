import ModelForms.Intrinsic
import ModelForms.Number.Double

/-!
# Type expressions

The structure of a type expression before its names are looked up.
-/

namespace ModelForms

/-- A type expression. -/
inductive TypeExpr where
  | keyword (k : Intrinsic)
  | string (value : String)
  | number (value : Double)
  | boolean (value : Bool)
  /-- A name, with the arguments that follow it between angle brackets. -/
  | reference (name : String) (args : List TypeExpr)
  | array (element : TypeExpr)
  | union (members : List TypeExpr)
  | intersection (members : List TypeExpr)
deriving Repr, Inhabited

end ModelForms
