import Changelog.Version.Basic

/-! # Precedence of semantic versions

Numbers first, then prereleases before the version they lead to; identifiers compare as numbers when both
are, numbers come before words, words compare by code point, and of two lists that agree as far as the
shorter goes the longer is greater. Build metadata does not count.
-/

namespace Changelog.Version

/-- Order of two prerelease identifiers. Comparing reads and writes no number, so `maxNumberDigits` is no limit here: two
    numeric identifiers of any length have an order. The number of a candidate is limited, since it is read and written
    before it is compared. -/
def compareIdentifier (a b : Text) : Ordering :=
  match isNumeric a, isNumeric b with
  | true, true => compare (Nat.ofDigitChars 10 a 0) (Nat.ofDigitChars 10 b 0)
  | true, false => .lt
  | false, true => .gt
  | false, false => compare a b

/-- Order of two lists of prerelease identifiers; none at all is greatest. -/
def comparePrerelease : List Text → List Text → Ordering
  | [], [] => .eq
  | [], _ :: _ => .gt
  | _ :: _, [] => .lt
  | as, bs => List.compareLex compareIdentifier as bs

/-- Order of two versions, older first. -/
def precedence (a b : Version) : Ordering :=
  (compare a.major b.major).then <| (compare a.minor b.minor).then <|
    (compare a.patch b.patch).then <| comparePrerelease a.prerelease b.prerelease

/-! ## Release candidates

A candidate is often written with its number glued to the letters. For comparison the number stands as an
identifier of its own, so that the ninth comes before the tenth.
-/

/-- The digits at the end of a text that ends with `-rc` and digits, and what stands before them. -/
def candidateNumber? (text : Text) : Option (Text × Text) :=
  let digits := Text.takeTailWhile isPlainDigit text
  let stem := Text.dropTailWhile isPlainDigit text
  if !digits.isEmpty && stem.endsWith (Text.ofString "-rc") then some (stem, digits) else none

def hasLongCandidate (text : Text) : Bool :=
  ((candidateNumber? text).map fun (_, digits) => maxNumberDigits < digits.length).getD false

/-- The text with the number of a candidate as an identifier of its own, without leading zeros. -/
def splitCandidate (text : Text) : Text :=
  match candidateNumber? text with
  | some (stem, digits) => stem ++ '.' :: Text.ofNat (Nat.ofDigitChars 10 digits 0)
  | none => text

/-- The form of a version text that is compared. -/
def normalizeCandidate (text : Text) : Text :=
  let split := splitCandidate text
  if isValid split then split else text

/-- Order of two version texts, older first. Texts that are no versions are equal to everything. -/
def compareTexts (a b : Text) : Ordering :=
  match parse? (normalizeCandidate a), parse? (normalizeCandidate b) with
  | some v, some w => precedence v w
  | _, _ => .eq

/-- Is `a` a version strictly newer than the version `b`? -/
def isNewer (a b : Text) : Except Fault Bool :=
  if isValid a && isValid b then
    if hasLongCandidate a || hasLongCandidate b then .error .numberTooLong else .ok (compareTexts a b == .gt)
  else .ok false

end Changelog.Version
