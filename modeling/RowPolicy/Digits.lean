import RowPolicy.Double

/-!
The shortest decimal that reads back to a given binary64 value. The reals that round to a value
form an interval; the search tries grids of one, two, … decimal digits and stops at the first
grid with a point inside. All comparisons are exact, on natural numbers.
-/
namespace RowPolicy

structure Decimal where
  digits : Nat
  exponent : Int
deriving DecidableEq

inductive Tie where
  | toEven | up
deriving DecidableEq

namespace Decimal

/-- How `digits * 10^exponent` compares with `n / 2^1076`. -/
def compareQuarters (d : Decimal) (n : Nat) : Ordering :=
  compare ((d.digits * tenTo d.exponent.toNat) <<< 1076) (n * tenTo (-d.exponent).toNat)

/-- The decimal lies in the interval of reals that round to `x`. Below a power of two the gap
to the next value is only half as wide, and the ends belong to the interval of an even `x`. -/
def readsBack (x : Double) (d : Decimal) : Bool :=
  let gap := 1 <<< x.shift
  let below := if x.fractionField = 0 ∧ 1 < x.exponentField then gap else 2 * gap
  let closed := x.significand % 2 == 0
  let low := d.compareQuarters (4 * x.units - below)
  let high := d.compareQuarters (4 * x.units + 2 * gap)
  (low == .gt || (closed && low == .eq)) && (high == .lt || (closed && high == .eq))

def leading (x : Double) : Int :=
  ((Nat.toDigits 10 ((x.units * tenTo 400) >>> 1074)).length : Int) - 400

/-- The point of the grid `10^exponent` nearest to `x` among its two neighbours that read back. -/
def onGrid? (tie : Tie) (x : Double) (exponent : Int) : Option Decimal :=
  let floor := x.units * tenTo (-exponent).toNat / (tenTo exponent.toNat <<< 1074)
  let lower : Decimal := ⟨floor, exponent⟩
  let upper : Decimal := ⟨floor + 1, exponent⟩
  match readsBack x lower, readsBack x upper with
  | false, false => none
  | true, false => some lower
  | false, true => some upper
  | true, true =>
    match compareQuarters ⟨2 * floor + 1, exponent⟩ (8 * x.units), tie with
    | .gt, _ => some lower
    | .lt, _ => some upper
    | .eq, .up => some upper
    | .eq, .toEven => some (if floor % 2 = 0 then lower else upper)

def stripZeros : Nat → Decimal → Decimal
  | 0, d => d
  | fuel + 1, d =>
    if d.digits ≠ 0 ∧ d.digits % 10 = 0 then stripZeros fuel ⟨d.digits / 10, d.exponent + 1⟩ else d

/-- The shortest decimal for a positive finite value. Seventeen digits always suffice; the exact
value stands behind the search. -/
def shortest (tie : Tie) (x : Double) : Decimal :=
  let k := leading x
  let found := (List.range 17).findSome? fun n => onGrid? tie x (k - (n + 1 : Nat))
  stripZeros 400 (found.getD ⟨x.units * Nat.pow 5 1074, -1074⟩)

def digitText (d : Decimal) : List Char := Nat.toDigits 10 d.digits

def positional (whole : List Char) (d : Decimal) : List Char :=
  let text := d.digitText
  let point : Int := text.length + d.exponent
  if 0 ≤ d.exponent then text ++ List.replicate d.exponent.toNat '0' ++ whole
  else if 0 < point then text.take point.toNat ++ '.' :: text.drop point.toNat
  else '0' :: '.' :: List.replicate (-point).toNat '0' ++ text

def scientific (d : Decimal) : List Char :=
  let text := d.digitText
  let power : Int := text.length + d.exponent - 1
  let mantissa := match text with
    | first :: second :: rest => first :: '.' :: second :: rest
    | short => short
  let sign := if power < 0 then '-' else '+'
  mantissa ++ 'e' :: sign :: Nat.toDigits 10 power.natAbs

def order (d : Decimal) : Int := d.digitText.length + d.exponent - 1

end Decimal
end RowPolicy
