import Changelog.Outline.Release

/-! # The order of versions is total

Newest first is a total preorder of all texts: what is not released yet comes before versions, versions before
other texts, and the order inside each of the three kinds is total. The comparison that can fail agrees with it
wherever it does not fail.
-/

namespace Changelog

namespace Version

/-! ## Precedence -/

theorem compareIdentifier_swap (a b : Text) : compareIdentifier a b = (compareIdentifier b a).swap := by
  cases ha : isNumeric a <;> cases hb : isNumeric b <;> simp only [compareIdentifier, ha, hb]
  · exact Std.OrientedOrd.eq_swap
  · rfl
  · rfl
  · exact Std.OrientedOrd.eq_swap

instance : Std.OrientedCmp compareIdentifier where
  eq_swap := compareIdentifier_swap _ _

instance : Std.TransCmp compareIdentifier where
  isLE_trans {a b c} hab hbc := by
    cases ha : isNumeric a <;> cases hb : isNumeric b <;> cases hc : isNumeric c <;>
      simp only [compareIdentifier, ha, hb, hc] at *
    all_goals first | exact Std.TransOrd.isLE_trans hab hbc | contradiction | rfl

theorem comparePrerelease_swap (a b : List Text) : comparePrerelease a b = (comparePrerelease b a).swap := by
  cases a with
  | nil => cases b <;> rfl
  | cons x xs =>
      cases b with
      | nil => rfl
      | cons y ys => exact @Std.OrientedCmp.eq_swap _ (List.compareLex compareIdentifier) _ _ _

instance : Std.OrientedCmp comparePrerelease where
  eq_swap := comparePrerelease_swap _ _

instance : Std.TransCmp comparePrerelease where
  isLE_trans {a b c} hab hbc := by
    cases a <;> cases b <;> cases c <;> simp only [comparePrerelease] at *
    all_goals first
      | exact @Std.TransCmp.isLE_trans _ (List.compareLex compareIdentifier) _ _ _ _ hab hbc
      | contradiction
      | rfl

theorem precedence_eq_compareLex : precedence = compareLex (compareOn major) (compareLex (compareOn minor)
    (compareLex (compareOn patch) fun a b => comparePrerelease a.prerelease b.prerelease)) := rfl

instance : Std.TransCmp fun a b : Version => comparePrerelease a.prerelease b.prerelease where
  eq_swap := comparePrerelease_swap _ _
  isLE_trans hab hbc := @Std.TransCmp.isLE_trans _ comparePrerelease _ _ _ _ hab hbc

instance : Std.TransCmp precedence := by
  rw [precedence_eq_compareLex]
  infer_instance

/-! ## Texts that are versions -/

theorem isValid_normalizeCandidate {text : Text} (h : isValid text) : isValid (normalizeCandidate text) := by
  unfold normalizeCandidate
  dsimp only
  split
  next split => exact split
  next => exact h

theorem exists_parse_normalizeCandidate {text : Text} (h : isValid text) :
    ∃ v, parse? (normalizeCandidate text) = some v := by
  have valid := isValid_normalizeCandidate h
  unfold isValid at valid
  cases hparse : parse? (normalizeCandidate text) with
  | none => simp [hparse] at valid
  | some v => exact ⟨v, rfl⟩

theorem compareTexts_swap (a b : Text) : compareTexts a b = (compareTexts b a).swap := by
  unfold compareTexts
  cases parse? (normalizeCandidate a) <;> cases parse? (normalizeCandidate b)
  · rfl
  · rfl
  · rfl
  · exact @Std.OrientedCmp.eq_swap _ precedence _ _ _

theorem compareTexts_isLE_trans {a b c : Text} (valid : isValid b) (hab : (compareTexts a b).isLE)
    (hbc : (compareTexts b c).isLE) : (compareTexts a c).isLE := by
  obtain ⟨v, hv⟩ := exists_parse_normalizeCandidate valid
  simp only [compareTexts, hv] at *
  cases ha : parse? (normalizeCandidate a) with
  | none => rfl
  | some u =>
      cases hc : parse? (normalizeCandidate c) with
      | none => rfl
      | some w =>
          simp only [ha, hc] at *
          exact @Std.TransCmp.isLE_trans _ precedence _ _ _ _ hab hbc

/-! ## All texts -/

theorem newestFirst_self (a : Text) : newestFirst a a = .eq := by
  simp [newestFirst]

theorem newestFirst_swap (a b : Text) : newestFirst a b = (newestFirst b a).swap := by
  by_cases hab : a = b
  · subst hab
    simp [newestFirst_self]
  · have hba : b ≠ a := Ne.symm hab
    by_cases ha : a = unreleased
    · subst ha
      simp [newestFirst, hab, hba]
    · by_cases hb : b = unreleased
      · subst hb
        simp [newestFirst, hab, hba]
      · cases va : isValid a <;> cases vb : isValid b <;>
          simp only [newestFirst, if_neg hab, if_neg hba, if_neg ha, if_neg hb, va, vb, Ordering.swap_lt, Ordering.swap_gt]
        · rw [Std.OrientedOrd.eq_swap (a := b) (b := a)]
          cases hc : compare a b with
          | lt => rfl
          | eq => exact absurd (Std.LawfulEqOrd.eq_of_compare hc) hab
          | gt => rfl
        · exact compareTexts_swap b a

theorem newestFirst_isLE_iff (a b : Text) : (newestFirst a b).isLE ↔ a = b ∨ a = unreleased ∨
    b ≠ unreleased ∧ (if isValid a then isValid b → (compareTexts b a).isLE else ¬isValid b ∧ (compare a b).isLE) := by
  by_cases hab : a = b
  · simp [hab, newestFirst_self]
  · by_cases ha : a = unreleased
    · subst ha
      simp [newestFirst, hab]
    · by_cases hb : b = unreleased
      · subst hb
        simp [newestFirst, hab]
      · cases va : isValid a <;> cases vb : isValid b <;> simp [newestFirst, hab, ha, hb, va, vb]
        cases hc : compare a b with
        | lt => simp
        | eq => exact absurd (Std.LawfulEqOrd.eq_of_compare hc) hab
        | gt => simp

theorem newestFirst_isLE_trans {a b c : Text} (hab : (newestFirst a b).isLE) (hbc : (newestFirst b c).isLE) :
    (newestFirst a c).isLE := by
  rw [newestFirst_isLE_iff] at *
  rcases hab with rfl | rfl | ⟨hb, hab⟩
  · exact hbc
  · exact Or.inr (Or.inl rfl)
  · rcases hbc with rfl | rfl | ⟨hc, hbc⟩
    · exact Or.inr (Or.inr ⟨hb, hab⟩)
    · exact absurd rfl hb
    · refine Or.inr (Or.inr ⟨hc, ?_⟩)
      cases va : isValid a <;> cases vb : isValid b <;> cases vc : isValid c <;> simp [va, vb, vc] at hab hbc ⊢
      · exact Std.TransOrd.isLE_trans hab hbc
      · exact compareTexts_isLE_trans vb hbc hab

instance : Std.TransCmp newestFirst where
  eq_swap := newestFirst_swap _ _
  isLE_trans := newestFirst_isLE_trans

end Version

end Changelog
