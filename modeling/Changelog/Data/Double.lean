import Changelog.Data.Basic

/-! # Numbers of double precision

A number of double precision is a whole number of at most 53 bits, times a power of two from a fixed range. A
decimal is rounded to the nearest such number, and to the even one of two that are equally near.
-/

namespace Changelog

/-- A number of double precision: the mantissa times two to the exponent, infinite, or not a number. -/
inductive Double where
  | finite (negative : Bool) (mantissa : Nat) (exponent : Int)
  | infinite (negative : Bool)
  | notANumber
  deriving Repr, DecidableEq, Inhabited

namespace Double

def precision : Nat := 53

def leastExponent : Int := -1074

def greatestExponent : Int := 971

structure Ratio where
  numerator : Nat
  denominator : Nat
  deriving Repr, DecidableEq

namespace Ratio

def scale (r : Ratio) (base : Nat) (exponent : Int) : Ratio :=
  if 0 ≤ exponent then { r with numerator := r.numerator * Nat.pow base exponent.toNat }
  else { r with denominator := r.denominator * Nat.pow base (-exponent).toNat }

def floor (r : Ratio) : Nat := r.numerator / r.denominator

/-- Is the next whole number nearer than the whole part, or as near and even? -/
def roundsUp (r : Ratio) : Bool :=
  let twice := 2 * (r.numerator % r.denominator)
  decide (r.denominator < twice) || (twice == r.denominator && r.floor % 2 == 1)

/-- The nearest whole number; a half goes to the even neighbour. -/
def round (r : Ratio) : Nat := if r.roundsUp then r.floor + 1 else r.floor

end Ratio

/-- The exponent with which the mantissa of a positive ratio has the full precision, if there is such an exponent
    in the range; the exponent of the smallest numbers otherwise. -/
def exponentOf (r : Ratio) : Int :=
  let guess : Int := (Nat.log2 r.numerator : Int) - Nat.log2 r.denominator - precision
  max leastExponent (if (r.scale 2 (-guess)).floor < Nat.pow 2 precision then guess else guess + 1)

def ofRatio (negative : Bool) (r : Ratio) : Double :=
  if r.numerator = 0 then .finite negative 0 leastExponent
  else
    let exponent := exponentOf r
    let mantissa := (r.scale 2 (-exponent)).round
    let (mantissa, exponent) :=
      if mantissa = Nat.pow 2 precision then (Nat.pow 2 (precision - 1), exponent + 1) else (mantissa, exponent)
    if greatestExponent < exponent then .infinite negative else .finite negative mantissa exponent

/-- How many places before the point a decimal has beyond which it is infinite, or after the point before its
    first digit beyond which it is zero. -/
def mostPlaces : Int := 400

def ofDecimal : Decimal → Double
  | .finite negative digits exponent =>
    let places : Int := (Nat.log2 digits : Int) * 30103 / 100000 + exponent
    if digits = 0 || places < -mostPlaces then .finite negative 0 leastExponent
    else if mostPlaces < places then .infinite negative
    else ofRatio negative (Ratio.scale ⟨digits, 1⟩ 10 exponent)
  | .infinite negative => .infinite negative
  | .notANumber => .notANumber

def whole? : Double → Option Int
  | .finite negative mantissa exponent =>
    let ratio := Ratio.scale ⟨mantissa, 1⟩ 2 exponent
    if ratio.numerator % ratio.denominator = 0 then some (if negative then -(ratio.floor : Int) else ratio.floor)
    else none
  | _ => none

end Double

end Changelog
