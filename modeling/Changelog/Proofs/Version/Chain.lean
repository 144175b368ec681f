import Changelog.Proofs.Version.Bump
import Changelog.Proofs.Version.Neighbours

/-! # Chains of bumps

A bump makes a version newer, and newer is transitive. So every version of a chain of bumps is newer than all versions
before it, from a candidate whose number is glued to its letters on.
-/

namespace Changelog.Version

variable {a b c text keyword version : Text} {versions : List Text}

theorem isNewer_eq_true_iff : isNewer a b = .ok true ↔ (isValid a ∧ isValid b) ∧
    (hasLongCandidate a = false ∧ hasLongCandidate b = false) ∧ newestFirst a b = .lt := by
  constructor
  · intro h
    have newer := eq_of_isNewer h
    simp only [Bool.true_eq, Bool.and_eq_true, beq_iff_eq] at newer
    obtain ⟨valid, first⟩ := newer
    have compared : (hasLongCandidate a = false ∧ hasLongCandidate b = false) ∧ compareTexts a b = .gt := by
      simpa [isNewer, valid, ite_eq_iff] using h
    exact ⟨valid, compared.1, first⟩
  · rintro ⟨⟨va, vb⟩, ⟨ha, hb⟩, first⟩
    rw [isNewer_of_isComparable (fun _ => ha) (fun _ => hb), va, vb, first]
    rfl

theorem isNewer_trans (hab : isNewer a b = .ok true) (hbc : isNewer b c = .ok true) : isNewer a c = .ok true := by
  obtain ⟨⟨va, -⟩, ⟨ha, -⟩, hab⟩ := isNewer_eq_true_iff.mp hab
  obtain ⟨⟨-, vc⟩, ⟨-, hc⟩, hbc⟩ := isNewer_eq_true_iff.mp hbc
  exact isNewer_eq_true_iff.mpr ⟨⟨va, vc⟩, ⟨ha, hc⟩, Std.TransCmp.lt_trans hab hbc⟩

theorem exists_read_of_bumpText (h : bumpText text keyword = .ok version) : ∃ w, read version = .ok w ∧ w.build = [] := by
  obtain ⟨v, bump, hparse, -, -, short, rfl⟩ := of_bumpText h
  have wellFormed := (parse?_eq_some_iff.mp hparse).1.bump bump
  exact ⟨v.bump bump, read_eq_ok_iff.mpr ⟨parse?_eq_some_iff.mpr ⟨wellFormed, rfl⟩, short⟩, build_bump v bump⟩

theorem isNewer_of_bumpText (short : hasLongCandidate text = false) (h : bumpText text keyword = .ok version) :
    isNewer version text = .ok true ∧ hasLongCandidate version = false := by
  obtain ⟨valid, validBump, unsplit, first⟩ := newestFirst_of_bumpText h
  have shortBump : hasLongCandidate version = false := by simp [hasLongCandidate, unsplit]
  exact ⟨isNewer_eq_true_iff.mpr ⟨⟨validBump, valid⟩, ⟨shortBump, short⟩, first⟩, shortBump⟩

def IsBumpedTo (older newer : Text) : Prop := ∃ keyword, bumpText older keyword = .ok newer

theorem isChain_of_bumps (short : hasLongCandidate text = false) (h : (text :: versions).IsChain IsBumpedTo) :
    (text :: versions).IsChain fun older newer => isNewer newer older = .ok true := by
  induction versions generalizing text with
  | nil => exact .singleton text
  | cons next versions ih =>
      obtain ⟨⟨keyword, hbump⟩, rest⟩ := List.isChain_cons_cons.mp h
      obtain ⟨newer, shortNext⟩ := isNewer_of_bumpText short hbump
      exact .cons_cons newer (ih shortNext rest)

/-- Whatever a bump makes of a version is a version, newer than the one before, and has no build metadata. In a chain of
    bumps every version is newer than all before it. -/
theorem bumps_are_newer (short : hasLongCandidate text = false) :
    (∀ keyword version, bumpText text keyword = .ok version →
      isValid version ∧ isNewer version text = .ok true ∧ ∃ w, read version = .ok w ∧ w.build = []) ∧
    ∀ versions, (text :: versions).IsChain IsBumpedTo →
      (text :: versions).Pairwise fun older newer => isNewer newer older = .ok true := by
  refine ⟨fun keyword version h => ?_, fun versions chain => ?_⟩
  · exact ⟨(newestFirst_of_bumpText h).2.1, (isNewer_of_bumpText short h).1, exists_read_of_bumpText h⟩
  · exact pairwise_of_isChain (isChain_of_bumps short chain) fun _ _ _ _ _ _ hab hbc => isNewer_trans hbc hab

/-- From a first candidate to its next releases, and then to another minor version. -/
theorem bumps_are_newer_candidate :
    let text := Text.ofString "1.0.0-rc1"
    let versions := [Text.ofString "1.0.0-rc1.0", Text.ofString "1.0.0-rc1.1", Text.ofString "1.1.0"]
    hasLongCandidate text = false ∧ bumpText text (Text.ofString "prerelease") = .ok (Text.ofString "1.0.0-rc1.0") ∧
      isValid (Text.ofString "1.0.0-rc1.0") ∧ isNewer (Text.ofString "1.0.0-rc1.0") text = .ok true ∧
      (∃ w, read (Text.ofString "1.0.0-rc1.0") = .ok w ∧ w.build = []) ∧ (text :: versions).IsChain IsBumpedTo ∧
      (text :: versions).Pairwise fun older newer => isNewer newer older = .ok true := by
  intro text versions
  have short : hasLongCandidate text = false := by decide
  have first : bumpText text (Text.ofString "prerelease") = .ok (Text.ofString "1.0.0-rc1.0") := by decide +kernel
  have chain : (text :: versions).IsChain IsBumpedTo :=
    .cons_cons ⟨_, first⟩ <| .cons_cons ⟨Text.ofString "prerelease", by decide +kernel⟩ <|
      .cons_cons ⟨Text.ofString "minor", by decide +kernel⟩ <| .singleton _
  obtain ⟨step, run⟩ := bumps_are_newer short
  obtain ⟨valid, newer, plain⟩ := step _ _ first
  exact ⟨short, first, valid, newer, plain, chain, run versions chain⟩

end Changelog.Version
