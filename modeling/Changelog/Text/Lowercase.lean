import Changelog.Text.Letter
import Changelog.Text.CaseRanges

/-! # Lower case

A text is put into lower case character by character, but for two rules: the dotted capital I leaves a
combining dot behind, and a capital sigma at the end of a word becomes the final small sigma.
-/

namespace Changelog.Text

def inRanges (ranges : List (Nat × Nat)) (c : Char) : Bool :=
  ranges.any fun (first, last) => first ≤ c.toNat && c.toNat ≤ last

def isCased (c : Char) : Bool :=
  if c.toNat < 128 then isPlainLetter c else inRanges casedRanges c

/-- Is the character passed over when the end of a word is looked for? -/
def isCaseIgnorable (c : Char) : Bool := inRanges caseIgnorableRanges c

/-- Does a word go on with a cased character after ignorable ones? -/
def wordGoesOn (text : Text) : Bool :=
  ((text.dropWhile isCaseIgnorable).head?.map isCased).getD false

/-- The lower-case form of a character outside the basic alphabet and other than the sigma, one or two
    characters. -/
def lowercaseForm (c : Char) : Text :=
  if c.toNat == 0x130 then ['i', Char.ofNat 0x307]
  else
    match lowercaseRows.find? fun (first, last, step, _) =>
        first ≤ c.toNat && c.toNat ≤ last && (c.toNat - first) % step == 0 with
    | some (first, _, _, image) => [Char.ofNat (image + (c.toNat - first))]
    | none => [c]

/-- The lower-case form of `c` between `before`, read backwards, and `after`. -/
def lowercaseBetween (before : Text) (c : Char) (after : Text) : Text :=
  if c.toNat < 128 then
    if 'A'.toNat ≤ c.toNat && c.toNat ≤ 'Z'.toNat then [Char.ofNat (c.toNat + 32)] else [c]
  else if c.toNat == 0x3a3 then
    if wordGoesOn before && !wordGoesOn after then [Char.ofNat 0x3c2] else [Char.ofNat 0x3c3]
  else lowercaseForm c

/-- Lower case of a text that stands after `before`, read backwards. -/
def lowercaseAfter (before : Text) : Text → Text
  | [] => []
  | c :: rest => lowercaseBetween before c rest ++ lowercaseAfter (c :: before) rest

def lowercase (text : Text) : Text := lowercaseAfter [] text

end Changelog.Text
