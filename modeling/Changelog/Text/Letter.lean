import Changelog.Text.Digit
import Changelog.Text.WordRanges

/-! # Letters and word characters

Letters of the basic alphabet, the wider class of word characters, and comparison of letters without
regard to case.
-/

namespace Changelog

def isPlainLetter (c : Char) : Bool :=
  ('a'.toNat ≤ c.toNat && c.toNat ≤ 'z'.toNat) || ('A'.toNat ≤ c.toNat && c.toNat ≤ 'Z'.toNat)

/-- A letter, a number or the underscore, of any script. -/
def isWordChar (c : Char) : Bool :=
  if c.toNat < 128 then isPlainLetter c || isPlainDigit c || c == '_'
  else Text.wordRanges.any fun (first, last) => first ≤ c.toNat && c.toNat ≤ last

/-- The lower-case basic letter that `c` is a form of: itself, its capital, the long s, the Kelvin sign, and
    the dotted capital or dotless small i. -/
def foldLetter? (c : Char) : Option Char :=
  if 'a'.toNat ≤ c.toNat && c.toNat ≤ 'z'.toNat then some c
  else if 'A'.toNat ≤ c.toNat && c.toNat ≤ 'Z'.toNat then some (Char.ofNat (c.toNat + 32))
  else if c.toNat == 0x17f then some 's'
  else if c.toNat == 0x212a then some 'k'
  else if c.toNat == 0x130 || c.toNat == 0x131 then some 'i'
  else none

def isLetterForm (c : Char) : Bool := (foldLetter? c).isSome

namespace Text

/-- What follows `lead`, given in lower case, if `text` starts with it in any case. -/
def dropLeadFolded? : (lead text : Text) → Option Text
  | [], text => some text
  | _ :: _, [] => none
  | l :: lead, c :: text =>
    if foldLetter? c = some l || c = l then dropLeadFolded? lead text else none

def containsFolded (part : Text) : Text → Bool
  | [] => part.isEmpty
  | c :: rest => (dropLeadFolded? part (c :: rest)).isSome || containsFolded part rest

end Text

end Changelog
