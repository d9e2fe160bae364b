import ModelForms.Number.Double

/-!
# The shortest decimal of a number

Among the decimals that read back as a given double, the shortest are those with the fewest digits,
and of these the nearest to the number is its *shortest decimal*.  All arithmetic is exact.  A
decimal reads back as the number if it lies between the midpoints to the two neighbouring numbers,
where the midpoints count exactly if the number's significand is even, since a tie is read to the
even one.

On each decimal grid only the two points around the number can be the nearest, so the search tries
one digit, then two, and so on, and looks at two points each time.  Seventeen digits always suffice.
Which of two equally near points is taken is the format's choice.

Two formats are printed: `Double.jsonText` for JSON and `Double.plainText` for number literals.
-/

namespace ModelForms

/-- Which of two equally near decimals is taken. -/
inductive TieRule where
  /-- The one whose last digit is even. -/
  | toEven
  /-- The larger one. -/
  | up
deriving DecidableEq, Repr

/-- A positive decimal `digits * 10 ^ exponent`. -/
structure Decimal where
  /-- The digits as one number. -/
  digits : Nat
  /-- The place of the last digit. -/
  exponent : Int
deriving DecidableEq, Repr

/-- A decimal without up to `limit` of the zeros at its end. -/
def Decimal.dropZeros : (limit : Nat) → Decimal → Decimal
  | 0, x => x
  | limit + 1, x =>
      if x.digits ≠ 0 ∧ x.digits % 10 = 0 then dropZeros limit ⟨x.digits / 10, x.exponent + 1⟩
      else x

namespace Double

/-! ## The search -/

/-- The number of decimal digits of a natural number. -/
def decimalLength (n : Nat) : Nat := (Nat.toDigits 10 n).length

/-- The exponent of the leading decimal digit of a positive ratio. -/
def leadingPlace (num den : Nat) : Int :=
  if den ≤ num then (decimalLength (num / den) : Int) - 1
  else -(decimalLength ((den + num - 1) / num - 1) : Int)

/-- Four times the ratio of a number, and four times the two midpoints around it, over the common
denominator `4 * d.denominator`. -/
def fourfold (d : Double) : Nat × Nat × Nat :=
  let unit := 1 <<< d.binaryExponent.toNat
  let m := d.significand
  let below := if m = 1 <<< 52 ∧ d.binaryExponent ≠ -1074 then 1 else 2
  (4 * m * unit, (4 * m - below) * unit, (4 * m + 2) * unit)

/-- The nearest point on the grid of multiples of `10 ^ place` that reads back as the number. -/
def nearestOnGrid? (tie : TieRule) (d : Double) (place : Int) : Option Nat :=
  let (value, low, high) := d.fourfold
  -- Everything is measured in units of `1 / (4 * denominator * scale)`.
  let scale := Nat.pow 10 (-place).toNat
  let step := Nat.pow 10 place.toNat * (4 * d.denominator)
  let value := value * scale
  let floor := value / step
  let inside (k : Nat) : Bool :=
    let point := k * step
    if d.significand % 2 = 0 then low * scale ≤ point && point ≤ high * scale
    else low * scale < point && point < high * scale
  let rest := 2 * (value % step)
  let floorFirst :=
    if rest < step then true
    else if step < rest then false
    else match tie with
      | .toEven => floor % 2 = 0
      | .up => false
  let first := if floorFirst then floor else floor + 1
  let second := if floorFirst then floor + 1 else floor
  if inside first then some first
  else if inside second then some second
  else none

/-- Tries ever finer grids, `fuel` of them, from the given place downwards. -/
def searchGrids (tie : TieRule) (d : Double) : (fuel : Nat) → (place : Int) → Option Decimal
  | 0, _ => none
  | fuel + 1, place =>
      match d.nearestOnGrid? tie place with
      | some digits => some ⟨digits, place⟩
      | none => searchGrids tie d fuel (place - 1)

/-- The shortest decimal of the magnitude of a finite number that is not zero. -/
def shortest (tie : TieRule) (d : Double) : Decimal :=
  let place := leadingPlace d.numerator d.denominator
  let found := (searchGrids tie d 18 place).getD ⟨0, 0⟩
  Decimal.dropZeros 18 found

/-! ## Two layouts -/

/-- The digits of a natural number. -/
def digitChars (n : Nat) : List Char := Nat.toDigits 10 n

/-- Positional notation of a decimal, without a point if it is an integer. -/
def positional (x : Decimal) : List Char :=
  let ds := digitChars x.digits
  if 0 ≤ x.exponent then ds ++ List.replicate x.exponent.toNat '0'
  else
    let places := (-x.exponent).toNat
    if places < ds.length then
      ds.take (ds.length - places) ++ '.' :: ds.drop (ds.length - places)
    else '0' :: '.' :: (List.replicate (places - ds.length) '0' ++ ds)

/-- Scientific notation of a decimal: one digit before the point, and an exponent with a sign. -/
def scientific (x : Decimal) : List Char :=
  let ds := digitChars x.digits
  let exponent : Int := x.exponent + (ds.length - 1 : Nat)
  let mantissa := match ds with
    | [] => []
    | [d] => [d]
    | d :: more => d :: '.' :: more
  mantissa ++ 'e' :: (if exponent < 0 then '-' else '+') :: digitChars exponent.natAbs

/-- The sign of a number as it is written. -/
def signChars (d : Double) : List Char := if d.isNegative then ['-'] else []

/-- The JSON text of a finite number: positional with a point while the leading digit stands between
the fifth place after the point and the sixteenth before it, scientific otherwise. -/
def jsonText (d : Double) : String :=
  if d.isZero then String.ofList (d.signChars ++ "0.0".toList)
  else
    let x := d.shortest .toEven
    let lead : Int := x.exponent + (decimalLength x.digits - 1 : Nat)
    let body :=
      if -5 ≤ lead ∧ lead ≤ 15 then
        if 0 ≤ x.exponent then positional x ++ ".0".toList else positional x
      else scientific x
    String.ofList (d.signChars ++ body)

/-- The text of a number literal: positional, with no point for an integer. -/
def plainText (d : Double) : String :=
  if d.isNaN then "NaN"
  else if d.isInfinite then String.ofList (d.signChars ++ "inf".toList)
  else if d.isZero then String.ofList (d.signChars ++ ['0'])
  else String.ofList (d.signChars ++ positional (d.shortest .up))

example : (ofRatio false 1 10).jsonText = "0.1" := by decide +kernel
example : (ofInt 100).jsonText = "100.0" ∧ (ofInt 100).plainText = "100" := by decide +kernel
example : (ofInt (10 ^ 16)).jsonText = "1e+16" := by decide +kernel
example : (ofRatio true 1 1000000).jsonText = "-1e-6" := by decide +kernel
example : (ofInt (10 ^ 23)).plainText = "100000000000000000000000" := by decide +kernel
example : (Double.mk 1).jsonText = "5e-324" := by decide +kernel
example : (ofRatio false 314 100).plainText = "3.14" := by decide +kernel
example : (ofParts true infinityBits).plainText = "-inf" := by decide +kernel

end Double

end ModelForms
