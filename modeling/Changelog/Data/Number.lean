import Changelog.Data.Basic
import Changelog.Text.Blank
import Changelog.Text.Letter

/-! # Numbers of settings and arguments

Whole numbers and decimals as people write them: with white space around them, a sign, digits of any script, and
single underscores between digits.
-/

namespace Changelog.Number

/-- White space that may stand around a number: all but the controls that separate files, groups, records and
    units. -/
def isPadding (c : Char) : Bool := isBlankChar c && !(28 ≤ c.toNat && c.toNat ≤ 31)

def trim (text : Text) : Text := Text.dropTailWhile isPadding (text.dropWhile isPadding)

/-- The digits of a run of digits in which single underscores may stand between neighbours. -/
def ungrouped? : Text → Option Text
  | [] => none
  | [c] => if isDecimalDigit c then some [c] else none
  | c :: '_' :: rest => if isDecimalDigit c then (ungrouped? rest).map (c :: ·) else none
  | c :: rest => if isDecimalDigit c then (ungrouped? rest).map (c :: ·) else none

/-- Is there a minus sign in front, and what follows the sign? -/
def sign : Text → Bool × Text
  | '-' :: rest => (true, rest)
  | '+' :: rest => (false, rest)
  | text => (false, text)

def signed (negative : Bool) (n : Nat) : Int := if negative then -(n : Int) else n

def int? (text : Text) : Option Int := do
  let (negative, rest) := sign (trim text)
  let digits ← ungrouped? rest
  if digits.length ≤ maxNumberDigits then some (signed negative (Text.digitsValue digits)) else none

def exponent? (text : Text) : Option Int := do
  let (negative, rest) := sign text
  return signed negative (Text.digitsValue (← ungrouped? rest))

/-- The digits on one side of the point; there may be none. -/
def side? (text : Text) : Option Text := if text.isEmpty then some [] else ungrouped? text

/-- The digits of a number without exponent, and how many of them stand after the point. -/
def mantissa? (text : Text) : Option (Nat × Nat) := do
  let (whole, fraction) := (Text.cutAt '.' text).getD (text, [])
  let whole ← side? whole
  let fraction ← side? fraction
  if whole.isEmpty && fraction.isEmpty then none
  else some (Text.digitsValue (whole ++ fraction), fraction.length)

/-- Is the text one of the words, given in lower case, in any case of the basic letters? -/
def isWord (words : List String) (text : Text) : Bool := words.any fun word => word.toList = text.map Char.toLower

/-- The decimal that a text stands for. There are words for the infinite and for what is not a number. -/
def decimal? (text : Text) : Option Decimal := do
  let (negative, rest) := sign (trim text)
  if isWord ["inf", "infinity"] rest then some (.infinite negative)
  else if isWord ["nan"] rest then some .notANumber
  else
    let before := rest.takeWhile fun c => c != 'e' && c != 'E'
    let (digits, places) ← mantissa? before
    let exponent ← match rest.drop before.length with
      | [] => some 0
      | _ :: after => exponent? after
    some (.finite negative digits (exponent - places))

end Changelog.Number
