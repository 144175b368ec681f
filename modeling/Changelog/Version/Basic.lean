import Changelog.Fault
import Changelog.Text.Digit
import Changelog.Text.Letter

/-! # Semantic versions

A version is three numbers, prerelease identifiers and build identifiers. It has one written form, and
reading accepts that form only, up to a fixed number of digits in each of the three numbers.
-/

namespace Changelog

/-- A semantic version. No prerelease and no build metadata are the empty lists. -/
structure Version where
  major : Nat
  minor : Nat
  patch : Nat
  prerelease : List Text := []
  build : List Text := []
  deriving Repr, DecidableEq, Inhabited

namespace Version

/-- A run of digits without a leading zero, as a number. -/
def numeral? (text : Text) : Option Nat :=
  if text.all isPlainDigit && (text = ['0'] || (text.head?.map (· != '0')).getD false) then
    some (Nat.ofDigitChars 10 text 0)
  else none

def isIdentifierChar (c : Char) : Bool := isPlainLetter c || isPlainDigit c || c == '-'

/-- An identifier of build metadata: letters, digits and dashes. -/
def isBuildIdentifier (text : Text) : Bool := !text.isEmpty && text.all isIdentifierChar

def isNumeric (text : Text) : Bool := text.all isPlainDigit

/-- An identifier of a prerelease: one of build metadata that is no number with a leading zero. -/
def isPrereleaseIdentifier (text : Text) : Bool :=
  isBuildIdentifier text && (!isNumeric text || (numeral? text).isSome)

/-- Splits off the dotted identifiers after the first `mark`, if there is one. -/
def splitMark (mark : Char) (accept : Text → Bool) (text : Text) : Option (Text × List Text) :=
  match Text.cutAt mark text with
  | none => some (text, [])
  | some (before, after) =>
    let identifiers := after.splitOn '.'
    if identifiers.all accept then some (before, identifiers) else none

def core? (text : Text) : Option (Nat × Nat × Nat) :=
  match text.splitOn '.' with
  | [major, minor, patch] => do return (← numeral? major, ← numeral? minor, ← numeral? patch)
  | _ => none

/-- The version that a text is the written form of. -/
def parse? (text : Text) : Option Version := do
  let (main, build) ← splitMark '+' isBuildIdentifier text
  let (core, prerelease) ← splitMark '-' isPrereleaseIdentifier main
  let (major, minor, patch) ← core? core
  return { major, minor, patch, prerelease, build }

/-- Dotted identifiers after a mark; nothing for no identifiers. -/
def marked (mark : Char) : List Text → Text
  | [] => []
  | identifiers => mark :: Text.join ['.'] identifiers

def text (v : Version) : Text :=
  Text.ofNat v.major ++ '.' :: Text.ofNat v.minor ++ '.' :: Text.ofNat v.patch ++
    marked '-' v.prerelease ++ marked '+' v.build

/-- Has `n` more digits than are read or written? -/
def isLong (n : Nat) : Bool := Nat.pow 10 maxNumberDigits ≤ n

def hasLongNumber (v : Version) : Bool := isLong v.major || isLong v.minor || isLong v.patch

def read (text : Text) : Except Fault Version :=
  match parse? text with
  | none => .error (.notSemantic text)
  | some v => if v.hasLongNumber then .error .numberTooLong else .ok v

def isValid (text : Text) : Bool := ((parse? text).map fun v => !v.hasLongNumber).getD false

end Version

end Changelog
