import Changelog.Text.Basic

/-! # Blank characters

Which characters count as white space, and the operations that drop them or split at them.
-/

namespace Changelog

/-- White space of every script: controls that separate, the space, the no-break space, the spaces of
    general punctuation and the ideographic space. -/
def isBlankChar (c : Char) : Bool :=
  let n := c.toNat
  (9 ≤ n && n ≤ 13) || (28 ≤ n && n ≤ 32) || n == 0x85 || n == 0xa0 || n == 0x1680 ||
    (0x2000 ≤ n && n ≤ 0x200a) || n == 0x2028 || n == 0x2029 || n == 0x202f || n == 0x205f || n == 0x3000

/-- The space and the tab, which indent and separate inside a line. -/
def isSpaceOrTab (c : Char) : Bool := c == ' ' || c == '\t'

namespace Text

def isBlank (text : Text) : Bool := text.all isBlankChar

def stripLead (text : Text) : Text := text.dropWhile isBlankChar

def stripTail (text : Text) : Text := dropTailWhile isBlankChar text

def strip (text : Text) : Text := stripTail (stripLead text)

/-- The maximal runs of characters that are not white space. -/
def words : Text → List Text
  | [] => []
  | c :: rest =>
    if isBlankChar c then words rest
    else if (rest.head?.map isBlankChar).getD true then [c] :: words rest
    else consFirst c (words rest)

end Text

theorem isBlankChar_of_isSpaceOrTab {c : Char} (h : isSpaceOrTab c) : isBlankChar c := by
  simp only [isSpaceOrTab, Bool.or_eq_true, beq_iff_eq] at h
  rcases h with rfl | rfl <;> rfl

theorem isSpaceOrTab_eq_false {c : Char} (h : isBlankChar c = false) : isSpaceOrTab c = false := by
  cases hc : isSpaceOrTab c with
  | false => rfl
  | true => rw [isBlankChar_of_isSpaceOrTab hc] at h; contradiction

end Changelog
