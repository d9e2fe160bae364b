/-!
# Double-precision numbers

A number is held as the 64 bits of the binary64 format, so that two numbers are the same number
exactly if their bits are, the two zeros apart.  Arithmetic is done on exact ratios of naturals and
rounded once, to the nearest number of the format and to the even neighbour on a tie, which is how
the format defines it.  Nothing here goes through the machine's own floating point, so every value
can be computed in a proof.
-/

namespace ModelForms

/-- A binary64 number, as its bits. -/
structure Double where
  /-- Sign, eleven bits of exponent, fifty-two bits of fraction. -/
  bits : UInt64
deriving DecidableEq, Repr, Inhabited

namespace Double

/-! ## Parts -/

/-- Whether the sign bit is set. -/
def isNegative (d : Double) : Bool := 1 <<< 63 ≤ d.bits.toNat

/-- The bits below the sign. -/
def magnitudeBits (d : Double) : Nat := d.bits.toNat % (1 <<< 63)

/-- The magnitude bits of infinity. -/
def infinityBits : Nat := 2047 <<< 52

/-- Whether the number is one of the two infinities. -/
def isInfinite (d : Double) : Bool := d.magnitudeBits == infinityBits

/-- Whether the bits denote no number. -/
def isNaN (d : Double) : Bool := infinityBits < d.magnitudeBits

/-- Whether the number is one of the two zeros. -/
def isZero (d : Double) : Bool := d.magnitudeBits == 0

/-- The magnitude of a finite number as `m * 2 ^ q`: the integer `m`. -/
def significand (d : Double) : Nat :=
  let fraction := d.magnitudeBits % (1 <<< 52)
  if d.magnitudeBits < 1 <<< 52 then fraction else (1 <<< 52) + fraction

/-- The magnitude of a finite number as `m * 2 ^ q`: the exponent `q`. -/
def binaryExponent (d : Double) : Int :=
  let field : Nat := d.magnitudeBits >>> 52
  if field = 0 then -1074 else (field : Int) - 1075

/-- The magnitude of a finite number as a ratio: the numerator. -/
def numerator (d : Double) : Nat := d.significand <<< d.binaryExponent.toNat

/-- The magnitude of a finite number as a ratio: the denominator. -/
def denominator (d : Double) : Nat := 1 <<< (-d.binaryExponent).toNat

/-! ## Rounding -/

/-- A number from its sign and magnitude bits. -/
def ofParts (negative : Bool) (magnitude : Nat) : Double :=
  ⟨UInt64.ofNat ((if negative then 1 <<< 63 else 0) + magnitude)⟩

/-- The quotient rounded to the nearest integer, a half going to the even one. -/
def divideToEven (num den : Nat) : Nat :=
  let quotient := num / den
  let rest := 2 * (num % den)
  if rest < den then quotient
  else if den < rest then quotient + 1
  else quotient + quotient % 2

/-- The exponent of the last place that a positive ratio is rounded to: fifty-three digits are kept,
fewer where the format has no smaller place. -/
def lastPlace (num den : Nat) : Int :=
  let guess : Int := (num.log2 : Int) - den.log2 - 52
  let short := num <<< (-guess).toNat < den <<< (guess.toNat + 52)
  max (if short then guess - 1 else guess) (-1074)

/-- The number nearest to a ratio with positive denominator, with the given sign.  Ratios beyond the
largest number give infinity. -/
def ofRatio (negative : Bool) (num den : Nat) : Double :=
  if num = 0 then ofParts negative 0
  else
    let place := lastPlace num den
    let rounded := divideToEven (num <<< (-place).toNat) (den <<< place.toNat)
    let magnitude := (place + 1074).toNat <<< 52 + rounded
    ofParts negative (min magnitude infinityBits)

/-- The number nearest to an integer. -/
def ofInt (i : Int) : Double := ofRatio (i < 0) i.natAbs 1

/-- The same number with the other sign. -/
def neg (d : Double) : Double := ofParts (!d.isNegative) d.magnitudeBits

/-- The product of two finite numbers, rounded. -/
def mul (a b : Double) : Double :=
  ofRatio (a.isNegative != b.isNegative) (a.numerator * b.numerator)
    (a.denominator * b.denominator)

/-- The quotient of two finite numbers, the second not zero, rounded. -/
def div (a b : Double) : Double :=
  ofRatio (a.isNegative != b.isNegative) (a.numerator * b.denominator)
    (a.denominator * b.numerator)

/-- Whether two numbers are equal as numbers: the zeros are, and bits that denote no number are
equal to nothing. -/
def sameValue (a b : Double) : Bool :=
  !a.isNaN && !b.isNaN && (a == b || a.isZero && b.isZero)

example : ofInt 1 = ⟨0x3FF0000000000000⟩ := by decide +kernel
example : ofRatio true 1 10 = ⟨0xBFB999999999999A⟩ := by decide +kernel
example : ofRatio false 1 (1 <<< 1074) = ⟨1⟩ ∧ ofRatio false 1 (1 <<< 1075) = ⟨0⟩ := by decide +kernel
example : (ofInt (1 <<< 53 + 1)).bits = (ofInt (1 <<< 53)).bits := by decide +kernel
example : (mul (ofInt 3) (ofInt (-5))) = ofInt (-15) := by decide +kernel

end Double

end ModelForms
