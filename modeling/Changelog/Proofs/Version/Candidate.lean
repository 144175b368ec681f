import Changelog.Markdown.Inline
import Changelog.Proofs.Text.Parts
import Changelog.Proofs.Version.Comparison
import Mathlib.Data.List.TakeWhile

/-! # Candidates with few digits

Only the number of a release candidate can have too many digits for a comparison. It stands at the end of the text, behind
`-rc`. Where `-rc`, in any case, is nowhere directly followed by that many digits, there is no such candidate in the text, nor
in a stretch of it, nor in any label that is put into the form by which definitions are found.
-/

namespace Changelog

open Text

namespace Version

variable {text part stem digits : Text}

/-! ## The end of a text -/

theorem candidateNumber?_eq_some_iff : candidateNumber? text = some (stem, digits) ↔
    text = stem ++ digits ∧ digits ≠ [] ∧ (∀ d ∈ digits, isPlainDigit d) ∧ ofString "-rc" <:+ stem := by
  constructor
  · intro h
    unfold candidateNumber? at h
    dsimp only at h
    split at h
    next ends =>
      cases h
      simp only [Bool.and_eq_true, Bool.not_eq_true', List.isEmpty_eq_false_iff] at ends
      exact ⟨(dropTailWhile_append_takeTailWhile isPlainDigit text).symm, ends.1, forall_mem_takeTailWhile _ text,
        List.isSuffixOf_iff_suffix.mp ends.2⟩
    next => contradiction
  · rintro ⟨rfl, filled, plain, hsuffix⟩
    have letter : ∀ c ∈ stem.getLast?, isPlainDigit c = false := by
      obtain ⟨front, rfl⟩ := hsuffix
      intro c hc
      rw [List.getLast?_append_of_ne_nil front (by decide)] at hc
      cases hc
      decide
    have dropped : dropTailWhile isPlainDigit (stem ++ digits) = stem := by
      rw [dropTailWhile_append_of_forall plain, dropTailWhile_eq_self letter]
    have taken : takeTailWhile isPlainDigit (stem ++ digits) = digits := by
      have whole := dropTailWhile_append_takeTailWhile isPlainDigit (stem ++ digits)
      rw [dropped] at whole
      exact List.append_cancel_left whole
    have ends : Text.endsWith stem (ofString "-rc") := List.isSuffixOf_iff_suffix.mpr hsuffix
    simp [candidateNumber?, dropped, taken, ends, filled]

/-- Does the text, if it ends with `-rc` and digits, end with no more digits than are read? -/
def HasShortSuffix (text : Text) : Prop :=
  ∀ digits, (∀ d ∈ digits, isPlainDigit d) → ofString "-rc" ++ digits <:+ text → digits.length ≤ maxNumberDigits

theorem hasShortSuffix_iff : HasShortSuffix text ↔ hasLongCandidate text = false := by
  constructor
  · intro h
    cases hcandidate : candidateNumber? text with
    | none => simp [hasLongCandidate, hcandidate]
    | some candidate =>
        obtain ⟨rfl, -, plain, front, hfront⟩ := candidateNumber?_eq_some_iff.mp hcandidate
        have short := h candidate.2 plain ⟨front, by rw [← List.append_assoc, hfront]⟩
        simpa [hasLongCandidate, hcandidate] using short
  · rintro h digits plain ⟨front, rfl⟩
    by_cases filled : digits = []
    · simp [filled]
    · have hcandidate : candidateNumber? (front ++ (ofString "-rc" ++ digits)) = some (front ++ ofString "-rc", digits) :=
        candidateNumber?_eq_some_iff.mpr ⟨(List.append_assoc ..).symm, filled, plain, List.suffix_append front _⟩
      simpa [hasLongCandidate, hcandidate] using h

/-! ## Every place of a text -/

/-- Is `-rc`, in any case, nowhere directly followed by more digits than are read? Only the digits of versions count. -/
def HasShortCandidates (text : Text) : Prop :=
  ∀ r c digits, (r = 'r' ∨ r = 'R') → (c = 'c' ∨ c = 'C') → (∀ d ∈ digits, isPlainDigit d) →
    '-' :: r :: c :: digits <:+: text → digits.length ≤ maxNumberDigits

theorem hasShortCandidates_of_length (h : text.length ≤ maxNumberDigits) : HasShortCandidates text := by
  intro r c digits _ _ _ run
  have := run.length_le
  simp only [List.length_cons] at this
  omega

namespace HasShortCandidates

theorem of_isInfix (h : HasShortCandidates text) (hpart : part <:+: text) : HasShortCandidates part :=
  fun r c digits hr hc hdigits run => h r c digits hr hc hdigits (run.trans hpart)

theorem apart_of_isPlainDigit {d : Char} (h : isPlainDigit d) : IsBasic d ∧ d ≠ ' ' := by
  simp only [isPlainDigit, Bool.and_eq_true, decide_eq_true_eq] at h
  refine ⟨⟨Nat.lt_of_le_of_lt h.2 (by decide), ?_, ?_⟩, ?_⟩ <;>
    · rintro rfl
      revert h
      decide

theorem isBasic_run {r c : Char} {digits : Text} (hr : r = 'r' ∨ r = 'R') (hc : c = 'c' ∨ c = 'C')
    (hdigits : ∀ d ∈ digits, isPlainDigit d) : ∀ d ∈ '-' :: r :: c :: digits, IsBasic d ∧ d ≠ ' ' := by
  have dash : IsBasic '-' ∧ '-' ≠ ' ' := by decide
  have first : IsBasic r ∧ r ≠ ' ' := by rcases hr with rfl | rfl <;> decide
  have second : IsBasic c ∧ c ≠ ' ' := by rcases hc with rfl | rfl <;> decide
  simp only [List.forall_mem_cons]
  exact ⟨dash, first, second, fun d hd => apart_of_isPlainDigit (hdigits d hd)⟩

theorem join_space {parts : List Text} (h : ∀ part ∈ parts, HasShortCandidates part) :
    HasShortCandidates (join [' '] parts) := by
  intro r c digits hr hc hdigits run
  have apart : ' ' ∉ '-' :: r :: c :: digits := fun hmem => (isBasic_run hr hc hdigits ' ' hmem).2 rfl
  obtain ⟨part, hpart, run⟩ := exists_of_infix_join (List.cons_ne_nil _ _) apart run
  exact h part hpart r c digits hr hc hdigits run

theorem toNat_of_lowersTo {c d : Char} (h : LowersTo c d) :
    c.toNat = d.toNat ∨ 65 ≤ c.toNat ∧ c.toNat ≤ 90 ∧ d.toNat = c.toNat + 32 := by
  rcases h with rfl | ⟨capital, rfl⟩
  · exact Or.inl rfl
  · obtain ⟨first, last⟩ := (isUpper_iff c).mp capital
    have valid : (c.toNat + 32).isValidChar := Or.inl (Nat.lt_of_le_of_lt (Nat.add_le_add_right last 32) (by decide))
    exact Or.inr ⟨first, last, toNat_ofNat valid⟩

theorem eq_of_toNat_eq {c d : Char} (h : c.toNat = d.toNat) : c = d := by
  rw [← Char.ofNat_toNat c, h, Char.ofNat_toNat]

theorem eq_of_lowersTo {c d : Char} (h : LowersTo c d) (small : d.toNat < 97) : c = d := by
  rcases toNat_of_lowersTo h with same | ⟨first, _, same⟩
  · exact eq_of_toNat_eq same
  · omega

theorem eq_of_forall₂_lowersTo {source : Text} (h : List.Forall₂ LowersTo source part) (small : ∀ d ∈ part, d.toNat < 97) :
    source = part := by
  induction h with
  | nil => rfl
  | cons hlower _ ih =>
      obtain ⟨hd, hrest⟩ := List.forall_mem_cons.mp small
      rw [eq_of_lowersTo hlower hd, ih hrest]

theorem letter_of_lowersTo {lower upper c d : Char} (h : LowersTo c d) (hd : d = lower ∨ d = upper)
    (pair : lower.toNat = upper.toNat + 32 ∧ upper.toNat ≤ 90) : c = lower ∨ c = upper := by
  rcases hd with rfl | rfl
  · rcases toNat_of_lowersTo h with same | ⟨_, _, same⟩
    · exact Or.inl (eq_of_toNat_eq same)
    · exact Or.inr (eq_of_toNat_eq (by omega))
  · exact Or.inr (eq_of_lowersTo h (by omega))

/-- Lower case makes no new run. -/
theorem lowercase (h : HasShortCandidates text) : HasShortCandidates (lowercase text) := by
  intro r c digits hr hc hdigits run
  obtain ⟨source, hsource, lowers⟩ := exists_of_infix_lowercase (fun d hd => (isBasic_run hr hc hdigits d hd).1) run
  obtain ⟨dash, _, hdash, letters, rfl⟩ := List.forall₂_cons_right_iff.mp lowers
  obtain ⟨first, _, hfirst, letter, rfl⟩ := List.forall₂_cons_right_iff.mp letters
  obtain ⟨second, number, hsecond, numbers, rfl⟩ := List.forall₂_cons_right_iff.mp letter
  have small : ∀ d ∈ digits, d.toNat < 97 := by
    intro d hd
    have digit := hdigits d hd
    simp only [isPlainDigit, Bool.and_eq_true, decide_eq_true_eq] at digit
    exact Nat.lt_of_le_of_lt digit.2 (by decide)
  obtain rfl := eq_of_forall₂_lowersTo numbers small
  obtain rfl := eq_of_lowersTo hdash (by decide)
  exact h first second number (letter_of_lowersTo hfirst hr (by decide)) (letter_of_lowersTo hsecond hc (by decide)) hdigits
    hsource

theorem normalizeLabel (h : HasShortCandidates text) : HasShortCandidates (normalizeLabel text) :=
  lowercase (join_space fun _ hword => h.of_isInfix (infix_of_mem_words hword))

theorem hasShortSuffix (h : HasShortCandidates text) : HasShortSuffix text := fun digits plain hsuffix =>
  h 'r' 'c' digits (Or.inl rfl) (Or.inl rfl) plain hsuffix.isInfix

theorem hasLongCandidate_eq_false (h : HasShortCandidates text) : hasLongCandidate text = false :=
  hasShortSuffix_iff.mp h.hasShortSuffix

theorem isComparable (h : HasShortCandidates text) : IsComparable text := fun _ => h.hasLongCandidate_eq_false

end HasShortCandidates

end Version

end Changelog
