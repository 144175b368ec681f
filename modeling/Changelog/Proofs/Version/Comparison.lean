import Changelog.Proofs.Version.Reading
import Changelog.Proofs.Version.Sorting

/-! # Comparison never fails on readable candidates

Comparing two version texts has to read them again after the number of a candidate became an identifier of its
own. That reading succeeds for every version, so that only a candidate's number with too many digits stands in
the way of a comparison.
-/

namespace Changelog.Version

/-- If the text is a version, then it is no candidate with too long a number. -/
def IsComparable (text : Text) : Prop := isValid text → hasLongCandidate text = false

section

variable {a b c : Text}

theorem clash_eq_false_of_isComparable (ha : IsComparable a) (hb : IsComparable b) : clash a b = false := by
  cases hclash : clash a b with
  | false => rfl
  | true =>
      simp only [clash, Bool.and_eq_true, Bool.or_eq_true] at hclash
      obtain ⟨⟨⟨long | long, -⟩, va⟩, vb⟩ := hclash
      · rw [ha va] at long
        contradiction
      · rw [hb vb] at long
        contradiction

theorem anyClash_eq_false_of_isComparable {texts : List Text} (h : ∀ text ∈ texts, IsComparable text) :
    anyClash texts = false := by
  simp only [anyClash, List.any_eq_false]
  intro text htext
  cases valid : isValid text with
  | false => simp
  | true => simp [h text htext valid]

theorem compareNewest_of_isComparable (ha : IsComparable a) (hb : IsComparable b) :
    compareNewest a b = .ok (newestFirst a b) :=
  compareNewest_eq_ok (clash_eq_false_of_isComparable ha hb)

/-! ## Two versions -/

theorem ne_unreleased_of_isValid (h : isValid a) : a ≠ unreleased := by
  rintro rfl
  have : isValid unreleased = false := by decide
  rw [this] at h
  contradiction

theorem normalizeCandidate_of_none (h : candidateNumber? a = none) : normalizeCandidate a = a := by
  simp [normalizeCandidate, splitCandidate, h]

theorem exists_read_normalizeCandidate (h : isValid a) :
    ∃ v, read (normalizeCandidate a) = .ok v ∧ parse? (normalizeCandidate a) = some v := by
  obtain ⟨v, hv⟩ := isValid_iff.mp (isValid_normalizeCandidate h)
  exact ⟨v, hv, (read_eq_ok_iff.mp hv).1⟩

theorem newestFirst_eq_compareTexts (va : isValid a) (vb : isValid b) : newestFirst a b = compareTexts b a := by
  by_cases hab : a = b
  · subst hab
    obtain ⟨v, -, hv⟩ := exists_read_normalizeCandidate va
    simp only [newestFirst_self, compareTexts, hv]
    exact (@Std.ReflCmp.compare_self _ precedence _ v).symm
  · simp [newestFirst, hab, ne_unreleased_of_isValid va, ne_unreleased_of_isValid vb, va, vb]

theorem exists_read_newestFirst (va : isValid a) (vb : isValid b) :
    ∃ v w, read (normalizeCandidate a) = .ok v ∧ read (normalizeCandidate b) = .ok w ∧
      newestFirst a b = precedence w v := by
  obtain ⟨v, hv, pv⟩ := exists_read_normalizeCandidate va
  obtain ⟨w, hw, pw⟩ := exists_read_normalizeCandidate vb
  refine ⟨v, w, hv, hw, ?_⟩
  rw [newestFirst_eq_compareTexts va vb]
  simp only [compareTexts, pv, pw]

theorem isNewer_of_isComparable (ha : IsComparable a) (hb : IsComparable b) :
    isNewer a b = .ok (isValid a && isValid b && newestFirst a b == .lt) := by
  cases va : isValid a with
  | false => simp [isNewer, va]
  | true =>
      cases vb : isValid b with
      | false => simp [isNewer, va, vb]
      | true =>
          have swap : (compareTexts a b == .gt) = (newestFirst a b == .lt) := by
            rw [newestFirst_eq_compareTexts va vb, compareTexts_swap b a]
            cases compareTexts a b <;> rfl
          simp [isNewer, va, vb, ha va, hb vb, swap]

/-- Wherever two texts can be compared, newer is the version that comes strictly first. -/
theorem eq_of_isNewer {newer : Bool} (h : isNewer a b = .ok newer) :
    newer = (isValid a && isValid b && newestFirst a b == .lt) := by
  cases va : isValid a with
  | false => simpa [isNewer, va] using h.symm
  | true =>
      cases vb : isValid b with
      | false => simpa [isNewer, va, vb] using h.symm
      | true =>
          have short : hasLongCandidate a = false ∧ hasLongCandidate b = false := by
            simp only [isNewer, va, vb, Bool.and_self, if_true] at h
            split at h
            · contradiction
            next short => simpa using short
          have compared := isNewer_of_isComparable (fun _ => short.1) (fun _ => short.2)
          rw [va, vb] at compared
          exact Except.ok.inj (h.symm.trans compared)

end

/-! ## All texts -/

/-- Comparing is a total preorder of the texts that can be compared. It finds an order for any two of them, the
    opposite one for the exchanged pair, and it is transitive; it is the order of the versions read, where both
    texts are versions, and `isNewer` is its strict part there. -/
theorem compareNewest_total_preorder (a b c : Text) (ha : IsComparable a) (hb : IsComparable b)
    (hc : IsComparable c) :
    ∃ ab bc ac, compareNewest a b = .ok ab ∧ compareNewest b a = .ok ab.swap ∧
      compareNewest b c = .ok bc ∧ compareNewest a c = .ok ac ∧ (ab.isLE → bc.isLE → ac.isLE) ∧
      isNewer a b = .ok (isValid a && isValid b && ab == .lt) ∧
      (isValid a → isValid b → ∃ v w, read (normalizeCandidate a) = .ok v ∧
        read (normalizeCandidate b) = .ok w ∧ ab = precedence w v) := by
  refine ⟨newestFirst a b, newestFirst b c, newestFirst a c, ?_, ?_, ?_, ?_, ?_, ?_, ?_⟩
  · exact compareNewest_of_isComparable ha hb
  · rw [← newestFirst_swap]
    exact compareNewest_of_isComparable hb ha
  · exact compareNewest_of_isComparable hb hc
  · exact compareNewest_of_isComparable ha hc
  · exact newestFirst_isLE_trans
  · exact isNewer_of_isComparable ha hb
  · exact exists_read_newestFirst

/-- The tenth candidate, the ninth one, and a text that is no version. -/
theorem compareNewest_total_preorder_sample :
    let a := Text.ofString "1.0.0-rc10"
    let b := Text.ofString "1.0.0-rc9"
    let c := Text.ofString "1.0"
    IsComparable a ∧ IsComparable b ∧ IsComparable c ∧
      ∃ ab bc ac, compareNewest a b = .ok ab ∧ compareNewest b a = .ok ab.swap ∧
        compareNewest b c = .ok bc ∧ compareNewest a c = .ok ac ∧ (ab.isLE → bc.isLE → ac.isLE) ∧
        isNewer a b = .ok (isValid a && isValid b && ab == .lt) ∧
        (isValid a → isValid b → ∃ v w, read (normalizeCandidate a) = .ok v ∧
          read (normalizeCandidate b) = .ok w ∧ ab = precedence w v) := by
  have ha : IsComparable (Text.ofString "1.0.0-rc10") := fun _ => by decide
  have hb : IsComparable (Text.ofString "1.0.0-rc9") := fun _ => by decide
  have hc : IsComparable (Text.ofString "1.0") := fun _ => by decide
  exact ⟨ha, hb, hc, compareNewest_total_preorder _ _ _ ha hb hc⟩

end Changelog.Version
