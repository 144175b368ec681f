import Changelog.Text.Basic

/-! # Data values

What a configuration file or a request can hold: scalars, lists and objects. Objects keep the order of their
fields, and a field given again keeps its place.
-/

namespace Changelog

/-- A number with a fraction or an exponent, as it is written: `digits` times ten to the `exponent`. -/
inductive Decimal where
  | finite (negative : Bool) (digits : Nat) (exponent : Int)
  | infinite (negative : Bool)
  | notANumber
  deriving Repr, DecidableEq, Inhabited

namespace Decimal

def isZero : Decimal → Bool
  | finite _ digits _ => digits == 0
  | _ => false

end Decimal

inductive Data where
  | null
  | bool (value : Bool)
  | int (value : Int)
  | decimal (value : Decimal)
  | text (value : Text)
  /-- A date or a time, as it is written. -/
  | moment (value : Text)
  | list (items : List Data)
  | object (fields : List (Text × Data))
  deriving Repr, Inhabited

namespace Data

def lookup? (key : Text) (fields : List (Text × Data)) : Option Data :=
  (fields.find? fun field => field.1 = key).map (·.2)

/-- Sets the value of a key; a key that was there keeps its place. -/
def insert (key : Text) (value : Data) : List (Text × Data) → List (Text × Data)
  | [] => [(key, value)]
  | (key', value') :: rest =>
    if key' = key then (key, value) :: rest else (key', value') :: insert key value rest

def ofFields (fields : List (Text × Data)) : Data :=
  .object (fields.foldl (fun object (key, value) => insert key value object) [])

/-- Is there something to the value? Null, false, zero and what is empty have nothing to them. -/
def isTruthy : Data → Bool
  | null => false
  | bool value => value
  | int value => value != 0
  | decimal value => !value.isZero
  | text value => !value.isEmpty
  | moment _ => true
  | list items => !items.isEmpty
  | object fields => !fields.isEmpty

end Data

end Changelog
