import Changelog.Project.Hosting
import Changelog.Proofs.Text.Search

/-! # Repositories by owner and name

An owner and a name with a slash between them are a repository on the default host, whatever characters of names they are
made of.
-/

namespace Changelog

namespace Hosting

variable {c : Char} {name owner rest : Text}

def blankPoints : List Nat :=
  [9, 10, 11, 12, 13, 28, 29, 30, 31, 32, 0x85, 0xa0, 0x1680, 0x2000, 0x2001, 0x2002, 0x2003, 0x2004, 0x2005, 0x2006,
    0x2007, 0x2008, 0x2009, 0x200a, 0x2028, 0x2029, 0x202f, 0x205f, 0x3000]

theorem mem_blankPoints (h : isBlankChar c) : c.toNat ∈ blankPoints := by
  simp only [isBlankChar, Bool.or_eq_true, Bool.and_eq_true, decide_eq_true_eq, beq_iff_eq] at h
  simp only [blankPoints, List.mem_cons, List.not_mem_nil, or_false]
  omega

theorem isBlankChar_of_isNameChar (h : isNameChar c) : isBlankChar c = false := by
  have outside : ∀ n ∈ blankPoints, isNameChar (Char.ofNat n) = false := by decide +kernel
  rw [Bool.eq_false_iff]
  intro blank
  have other := outside c.toNat (mem_blankPoints blank)
  rw [Char.ofNat_toNat] at other
  exact Bool.false_ne_true (other.symm.trans h)

theorem readName_append (hname : ∀ c ∈ name, isNameChar c) (hne : name ≠ []) (hrest : rest.head?.all (!isNameChar ·)) :
    readName (name ++ rest) = some (name, rest) := by
  have front : (name ++ rest).takeWhile isNameChar = name := by
    rw [List.takeWhile_append_of_pos hname]
    cases rest with
    | nil => simp
    | cons c rest =>
        have hc : isNameChar c = false := by simpa using hrest
        simp [hc]
  have back : (name ++ rest).dropWhile isNameChar = rest := by
    rw [List.dropWhile_append_of_pos hname]
    cases rest with
    | nil => rfl
    | cons c rest =>
        have hc : isNameChar c = false := by simpa using hrest
        simp [hc]
  have filled : name.isEmpty = false := by simpa using hne
  rw [readName, front, back, filled]
  rfl

theorem isNameChar_or_slash (howner : ∀ c ∈ owner, isNameChar c) (hname : ∀ c ∈ name, isNameChar c) :
    ∀ c ∈ owner ++ '/' :: name, isNameChar c ∨ c = '/' := by
  simp only [List.mem_append, List.mem_cons]
  rintro c (hc | rfl | hc)
  · exact Or.inl (howner c hc)
  · exact Or.inr rfl
  · exact Or.inl (hname c hc)

theorem filled_of_names (howner : ∀ c ∈ owner, isNameChar c) (hname : ∀ c ∈ name, isNameChar c) :
    ∀ c ∈ owner ++ '/' :: name, isBlankChar c = false := fun c hc =>
  (isNameChar_or_slash howner hname c hc).elim isBlankChar_of_isNameChar fun hc => hc ▸ by decide

theorem url?_of_names (howner : ∀ c ∈ owner, isNameChar c) (hname : ∀ c ∈ name, isNameChar c) (hne : owner ≠ [])
    (hne' : name ≠ []) :
    url? (owner ++ '/' :: name) = some (browsable (Text.ofString "github.com") (owner ++ '/' :: name)) := by
  have unprefixed : Text.dropLeadFolded? (Text.ofString "github:") (owner ++ '/' :: name) = none := by
    rw [Option.eq_none_iff_forall_ne_some]
    intro rest hrest
    have colon := isNameChar_or_slash howner hname ':' (Text.mem_of_dropLeadFolded? hrest (by decide) (by decide))
    revert colon
    decide
  have first := @readName_append owner ('/' :: name) howner hne (by simp [isNameChar, isWordChar, isPlainLetter, isPlainDigit])
  have second := @readName_append name [] hname hne' rfl
  rw [List.append_nil] at second
  have slash : Text.dropLead? ['/'] ('/' :: name) = some name := Text.dropLead?_singleton '/' name
  have short : shorthand? (owner ++ '/' :: name) = some (owner, name) := by
    simp [shorthand?, unprefixed, first, slash, second]
  rw [url?, Text.strip_of_filled (filled_of_names howner hname)]
  simp only [short]

end Hosting

end Changelog
