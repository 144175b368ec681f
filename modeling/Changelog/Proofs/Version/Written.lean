import Changelog.Proofs.Version.Reading
import Changelog.Text.Blank

/-! # Characters of versions

A valid version is made of letters, digits, dashes, full stops and plus signs.
-/

namespace Changelog

namespace Version

open Text

variable {text : Text} {mark : Char} {parts : List Text}

/-- A character that a version can hold. -/
def isVersionChar (c : Char) : Bool := isIdentifierChar c || c == '.' || c == '+'

theorem bounds_of_isVersionChar {c : Char} (h : isVersionChar c) : 43 ≤ c.toNat ∧ c.toNat ≤ 122 := by
  simp only [isVersionChar, isIdentifierChar, isPlainLetter, isPlainDigit, Char.reduceToNat, Bool.or_eq_true,
    Bool.and_eq_true, decide_eq_true_eq, beq_iff_eq] at h
  rcases h with ((((h | h) | h) | rfl) | rfl) | rfl
  all_goals first | decide | omega

theorem isBlankChar_of_isVersionChar {c : Char} (h : isVersionChar c) : isBlankChar c = false := by
  have bounds := bounds_of_isVersionChar h
  rw [Bool.eq_false_iff]
  simp only [isBlankChar, ne_eq, Bool.or_eq_true, Bool.and_eq_true, decide_eq_true_eq, beq_iff_eq]
  omega

theorem isVersionChar_of_isIdentifierChar {c : Char} (h : isIdentifierChar c) : isVersionChar c := by
  simp [isVersionChar, h]

theorem forall_isVersionChar_of_isBuildIdentifier (h : isBuildIdentifier text) : ∀ c ∈ text, isVersionChar c := by
  simp only [isBuildIdentifier, Bool.and_eq_true, List.all_eq_true] at h
  exact fun c hc => isVersionChar_of_isIdentifierChar (h.2 c hc)

theorem forall_isVersionChar_join (h : ∀ part ∈ parts, isBuildIdentifier part) :
    ∀ c ∈ join ['.'] parts, isVersionChar c := by
  intro c hc
  rcases mem_join hc with hdot | ⟨part, hpart, hc⟩
  · rw [List.mem_singleton.mp hdot]
    decide
  · exact forall_isVersionChar_of_isBuildIdentifier (h part hpart) c hc

theorem forall_isVersionChar_marked (hmark : isVersionChar mark) (h : ∀ part ∈ parts, isBuildIdentifier part) :
    ∀ c ∈ marked mark parts, isVersionChar c := by
  cases parts with
  | nil => exact nofun
  | cons first rest =>
      rw [marked_of_ne_nil (List.cons_ne_nil first rest)]
      exact List.forall_mem_cons.mpr ⟨hmark, forall_isVersionChar_join h⟩

theorem forall_isVersionChar_of_isValid (h : isValid text) : ∀ c ∈ text, isVersionChar c := by
  obtain ⟨v, wellFormed, -, rfl⟩ := exists_text_of_isValid h
  have numbers : ∀ c ∈ v.core, isVersionChar c := forall_isVersionChar_join (by simp [isBuildIdentifier_ofNat])
  have prerelease : ∀ c ∈ marked '-' v.prerelease, isVersionChar c := forall_isVersionChar_marked (by decide)
    fun part hpart => isBuildIdentifier_of_isPrereleaseIdentifier (wellFormed.prerelease part hpart)
  have build : ∀ c ∈ marked '+' v.build, isVersionChar c := forall_isVersionChar_marked (by decide) wellFormed.build
  rw [text_eq, List.forall_mem_append, List.forall_mem_append]
  exact ⟨⟨numbers, prerelease⟩, build⟩

theorem exists_cons_of_isValid (h : isValid text) : ∃ c rest, text = c :: rest ∧ isPlainDigit c := by
  obtain ⟨v, -, -, rfl⟩ := exists_text_of_isValid h
  obtain ⟨c, digits, hmajor⟩ := List.exists_cons_of_ne_nil (ofNat_ne_nil v.major)
  have digit : isPlainDigit c := forall_isPlainDigit_ofNat v.major c (hmajor ▸ List.mem_cons_self)
  simp only [Version.text, hmajor, List.cons_append]
  exact ⟨c, _, rfl, digit⟩

theorem dropLead?_of_isValid {letter : Char} (h : isValid text) (other : isPlainDigit letter = false) :
    dropLead? [letter] text = none := by
  obtain ⟨c, rest, rfl, digit⟩ := exists_cons_of_isValid h
  have ne : letter ≠ c := by
    rintro rfl
    rw [digit] at other
    contradiction
  simp [dropLead?, List.isPrefixOf?, ne]

theorem ne_nil_of_isValid (h : isValid text) : text ≠ [] := by
  obtain ⟨c, rest, rfl, -⟩ := exists_cons_of_isValid h
  exact List.cons_ne_nil c rest

end Version

end Changelog
