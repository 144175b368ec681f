import Changelog.Data.Double
import Changelog.Data.Number

/-! # Integers in other data

An integer can be given as a text or as a number of double precision. A text is an integer as it stands or after it
was tidied: white space around it, a plus sign, zeros in front, zeros after a full stop and underscores between
digits do not count. A number of double precision is an integer if it is whole and fits into a machine word.
-/

namespace Changelog

inductive IntegerFault where
  /-- A text is no integer, not even after it was tidied. -/
  | unreadable
  /-- A text has more digits than are read, or a number does not fit into a machine word. -/
  | oversized
  /-- A number is not whole. -/
  | fractional
  /-- A number is infinite, or not a number. -/
  | notFinite
  deriving Repr, DecidableEq

namespace Integer

/-! ## Texts -/

/-- Is there a minus sign in front, and what follows it? A plus sign is not taken for a sign. -/
def parts : Text → Bool × Text
  | '-' :: rest => (true, rest)
  | text => (false, text)

/-- The integer that a text is as it stands: a minus sign if need be, and digits, of which the first is zero only if
    it is alone. -/
def plain? (text : Text) : Option Int :=
  let (negative, digits) := parts text
  if digits.isEmpty || !digits.all isPlainDigit || maxNumberDigits < text.length then none
  else if digits.head? = some '0' && digits ≠ ['0'] then none
  else some (Number.signed negative (Text.digitsValue digits))

/-- Does a text start with more digits, its sign counted as one, than are read? -/
def isOversized (text : Text) : Bool :=
  let (negative, digits) := parts text
  let run := digits.takeWhile isPlainDigit
  digits.head? ≠ some '0' && maxNumberDigits < run.length + negative.toNat

/-- What is left of a text after zeros and underscores in front of it, when `last` is the one before. That one stays
    if nothing or a full stop follows. -/
def afterZeros? (last : Char) : Text → Option Text
  | [] => some [last]
  | c :: rest =>
    if c = '0' || c = '_' then afterZeros? c rest
    else if c = '.' then some (last :: c :: rest)
    else if isPlainDigit c || c = '-' then some (c :: rest)
    else none

def dropZeros? : Text → Option Text
  | [] => none
  | c :: rest =>
    if c = '0' then afterZeros? c rest
    else if isPlainDigit c || c = '-' then some (c :: rest)
    else none

/-- The text without a fraction of zeros only. -/
def dropFraction (text : Text) : Text :=
  match Text.cutAt '.' text with
  | some (before, after) => if !after.isEmpty && after.all (· == '0') then before else text
  | none => text

/-- The text without underscores, if each of them stands between two other characters. -/
def dropUnderscores (text : Text) : Text :=
  if (text.splitOn '_').all fun part => !part.isEmpty then text.filter (· ≠ '_') else text

/-- The digits of an integer without what does not count. -/
def tidiedDigits? (digits : Text) : Option Text :=
  (dropZeros? digits).map fun digits => dropUnderscores (dropFraction digits)

/-- The text of an integer without what does not count. No minus sign may follow a plus sign. -/
def tidied? (text : Text) : Option Text :=
  match Number.sign (Number.trim text) with
  | (true, digits) => (tidiedDigits? digits).map ('-' :: ·)
  | (false, '-' :: _) => none
  | (false, digits) => tidiedDigits? digits

/-- The integer that a text stands for. -/
def ofText (text : Text) : Except IntegerFault Int :=
  if isOversized text then .error .oversized
  else
    match plain? text <|> (tidied? text).bind plain? with
    | some n => .ok n
    | none => .error .unreadable

/-! ## Numbers of double precision -/

/-- The number from which on integers do not fit into a machine word. -/
def wordLimit : Int := Int.pow 2 63

def fitsWord (n : Int) : Bool := -wordLimit ≤ n && n < wordLimit

/-- The integer that a number of double precision is. The least integer of a machine word is not taken from such a
    number. -/
def ofDouble (d : Double) : Except IntegerFault Int :=
  match d with
  | .finite .. =>
    match d.whole? with
    | some n => if -wordLimit < n && n < wordLimit then .ok n else .error .oversized
    | none => .error .fractional
  | _ => .error .notFinite

end Integer

end Changelog
