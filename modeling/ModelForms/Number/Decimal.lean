import ModelForms.Number.Double

/-!
# Decimal literals

A decimal is an optional minus sign, digits, and an optional point with further digits.  Digits may
be missing on one side of the point but not on both.  It denotes the nearest double.
-/

namespace ModelForms

namespace Double

/-- The number that a text of digits denotes. -/
def digitsValue (digits : List Char) : Nat :=
  digits.foldl (fun n c => 10 * n + (c.toNat - '0'.toNat)) 0

/-- The magnitude and sign that digits before and after a point denote. -/
def ofDigits? (negative : Bool) (whole fraction : List Char) : Option Double :=
  if whole.isEmpty && fraction.isEmpty then none
  else some (ofRatio negative (digitsValue (whole ++ fraction)) (Nat.pow 10 fraction.length))

/-- The double nearest to a decimal without its sign. -/
def ofUnsigned? (negative : Bool) (text : List Char) : Option Double :=
  let whole := text.takeWhile Char.isDigit
  match text.dropWhile Char.isDigit with
  | [] => ofDigits? negative whole []
  | '.' :: fraction => if fraction.all Char.isDigit then ofDigits? negative whole fraction else none
  | _ => none

/-- The double nearest to a decimal. -/
def ofDecimal? : List Char → Option Double
  | '-' :: text => ofUnsigned? true text
  | text => ofUnsigned? false text

example : ofDecimal? "1.".toList = some (ofInt 1) := by decide +kernel
example : ofDecimal? "-.".toList = none ∧ ofDecimal? "1.2.3".toList = none := by decide +kernel

end Double

end ModelForms
