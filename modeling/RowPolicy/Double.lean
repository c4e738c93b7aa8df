/-!
Binary64 numbers by their bits, with exact rounding. Every finite value is a whole number of
units of `2^-1074`, so rounding a quotient is arithmetic on natural numbers: scale the quotient
to units, keep fifty-three bits, and round to nearest with ties to even.
-/
namespace RowPolicy

def tenTo (k : Nat) : Nat := Nat.pow 10 k

/-- One sign bit, eleven exponent bits and fifty-two fraction bits. -/
structure Double where
  bits : UInt64
deriving DecidableEq

namespace Double

def signBit : Nat := 0x8000000000000000

/-- The value of the lowest exponent bit, which is also that of the leading one of a significand. -/
def exponentBit : Nat := 0x10000000000000

def topExponent : Nat := 0x7ff

def signed (x : Double) : Bool := signBit ≤ x.bits.toNat

def exponentField (x : Double) : Nat := x.bits.toNat / exponentBit % 0x800

def fractionField (x : Double) : Nat := x.bits.toNat % exponentBit

def isFinite (x : Double) : Bool := x.exponentField != topExponent

def ofParts (negative : Bool) (magnitude : Nat) : Double :=
  ⟨UInt64.ofNat (magnitude + if negative then signBit else 0)⟩

def neg (x : Double) : Double := ofParts (!x.signed) (x.bits.toNat % signBit)

/-- The significand, with its leading one unless the value is subnormal. -/
def significand (x : Double) : Nat :=
  if x.exponentField = 0 then x.fractionField else exponentBit + x.fractionField

/-- The significand counts multiples of `2^shift` units. -/
def shift (x : Double) : Nat := x.exponentField - 1

/-- The magnitude of a finite value, counted in units of `2^-1074`. -/
def units (x : Double) : Nat := x.significand <<< x.shift

def isZero (x : Double) : Bool := x.units == 0

/-- The integer nearest to `num / den`, the even one of two equally near. -/
def roundQuotient (num den : Nat) : Nat :=
  let q := num / den
  match compare (2 * (num % den)) den with
  | .lt => q
  | .gt => q + 1
  | .eq => if q % 2 = 0 then q else q + 1

/-- The magnitude bits of the value nearest to `num / den`. A significand that rounds up to
`2^53` carries into the exponent field, and what is too large becomes infinite. -/
def magnitudeBits (num den : Nat) : Nat :=
  let scaled := num <<< 1074
  let shift := (scaled / den).log2 - 52
  min (shift * exponentBit + roundQuotient scaled (den <<< shift)) (topExponent * exponentBit)

def ofRatio (negative : Bool) (num den : Nat) : Double := ofParts negative (magnitudeBits num den)

def ofNat (n : Nat) : Double := ofRatio false n 1

def ofInt (i : Int) : Double := ofRatio (i < 0) i.natAbs 1

def infinity (negative : Bool) : Double := ofParts negative (topExponent * exponentBit)

def notANumber : Double := ofParts false (topExponent * exponentBit + exponentBit / 2)

def times (x y : Double) : Double := ofRatio false (x.units * y.units) (1 <<< 2148)

def dividedBy (x y : Double) : Double := ofRatio false x.units y.units

def powerOfTen (k : Nat) : Double := ofNat (tenTo k)

def ofDecimal (negative : Bool) (digits : Nat) (exponent : Int) : Double :=
  if digits = 0 then ofParts negative 0
  else if 310 < exponent then infinity negative
  else if 0 ≤ exponent then ofRatio negative (digits * tenTo exponent.toNat) 1
  else if exponent + (Nat.log2 digits : Int) < -1100 then ofParts negative 0
  else ofRatio negative digits (tenTo (-exponent).toNat)

/-- A quick reading of `digits * 10^exponent`: the digits are rounded first, then multiplied or
divided by a rounded power of ten of at most `10^308`. Nothing if the result overflows. -/
def ofScaled? (digits : Nat) (exponent : Int) : Option Double :=
  let start := ofNat digits
  if digits = 0 then some start
  else if 308 < exponent then none
  else if 0 ≤ exponent then
    let product := start.times (powerOfTen exponent.toNat)
    if product.isFinite then some product else none
  else if -308 ≤ exponent then some (start.dividedBy (powerOfTen (-exponent).toNat))
  else if -616 ≤ exponent then
    some ((start.dividedBy (powerOfTen 308)).dividedBy (powerOfTen (-exponent - 308).toNat))
  else some (ofNat 0)

end Double
end RowPolicy
