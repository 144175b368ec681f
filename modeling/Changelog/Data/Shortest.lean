import Changelog.Data.Double

/-! # The shortest text of a number

A number of double precision is written with the fewest digits that read back as the same number, and among
these with the ones nearest to it.
-/

namespace Changelog.Double

def mostDigits : Nat := 17

def ratio (mantissa : Nat) (exponent : Int) : Ratio := Ratio.scale ⟨mantissa, 1⟩ 2 exponent

/-- The least exponent of ten whose power exceeds a positive ratio. -/
def pointOf (r : Ratio) : Int :=
  let guess : Int := ((Nat.log2 r.numerator : Int) - Nat.log2 r.denominator) * 30103 / 100000
  let exceeds := fun (point : Int) => (r.scale 10 (-point)).floor == 0
  ([guess - 1, guess, guess + 1].find? exceeds).getD (guess + 2)

/-- The digits nearest to the number among the two neighbours on the grid of `count` digits that read back. -/
def digitsAt? (mantissa : Nat) (exponent : Int) (count : Nat) : Option (Nat × Int) :=
  let r := ratio mantissa exponent
  let unit := pointOf r - count
  let scaled := r.scale 10 (-unit)
  let neighbours :=
    if scaled.roundsUp then [scaled.floor + 1, scaled.floor] else [scaled.floor, scaled.floor + 1]
  let readsBack := fun digits => ofDecimal (.finite false digits unit) == .finite false mantissa exponent
  (neighbours.find? readsBack).map fun digits => (digits, unit)

/-- The fewest digits that read back, and the exponent of ten that belongs to the last of them. -/
def shortestDigits (mantissa : Nat) (exponent : Int) : Nat × Int :=
  ((List.range mostDigits).findSome? fun i => digitsAt? mantissa exponent (i + 1)).getD (0, 0)

/-- Digits with a point after the first `point` of them, filled up with zeros on either side. -/
def positional (digits : Text) (point : Int) : Text :=
  if point ≤ 0 then '0' :: '.' :: List.replicate (-point).toNat '0' ++ digits
  else
    let whole := digits.take point.toNat
    let fraction := digits.drop point.toNat
    whole ++ List.replicate (point.toNat - whole.length) '0' ++ '.' :: (if fraction.isEmpty then ['0'] else fraction)

def scientific (digits : Text) (point : Int) : Text :=
  let exponent := Text.ofNat (point - 1).natAbs
  let filled := List.replicate (2 - exponent.length) '0' ++ exponent
  digits.take 1 ++ (if digits.length = 1 then [] else '.' :: digits.drop 1) ++
    'e' :: (if point ≤ 0 then '-' else '+') :: filled

/-- A positive number in its shortest form. It has an exponent below a ten-thousandth and from ten to the power
    of sixteen on. -/
def textOfPositive (mantissa : Nat) (exponent : Int) : Text :=
  let (n, unit) := shortestDigits mantissa exponent
  let written := Text.ofNat n
  let point := unit + written.length
  let digits := Text.dropTailWhile (· == '0') written
  if point ≤ -4 || 16 < point then scientific digits point else positional digits point

def text : Double → Text
  | .finite negative mantissa exponent =>
    (if negative then ['-'] else []) ++
      (if mantissa = 0 then Text.ofString "0.0" else textOfPositive mantissa exponent)
  | .infinite negative => Text.ofString (if negative then "-inf" else "inf")
  | .notANumber => Text.ofString "nan"

end Changelog.Double
