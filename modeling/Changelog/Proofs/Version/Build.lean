import Changelog.Proofs.Version.Comparison
import Changelog.Proofs.Version.Reading

/-! # Build metadata

Build metadata has no part in the precedence of versions, but it stands where the number of a candidate is looked for. So a
candidate with build metadata is compared as it is written, with its number glued to the letters, and any other version as
if the build metadata were not there.
-/

namespace Changelog

namespace Text

variable {c : Char} {tail : Text}

theorem endsWith_append_cons (h : c ∉ tail) (front text : Text) :
    (front ++ c :: text).endsWith tail = text.endsWith tail := by
  rw [Bool.eq_iff_iff, endsWith, endsWith, List.isSuffixOf_iff_suffix, List.isSuffixOf_iff_suffix]
  constructor
  · rintro ⟨start, whole⟩
    rcases List.append_eq_append_iff.mp whole with ⟨between, -, rfl⟩ | ⟨between, -, rest⟩
    · exact absurd (List.mem_append_right between List.mem_cons_self) h
    · cases between with
      | nil =>
          rw [List.nil_append] at rest
          exact absurd (rest ▸ List.mem_cons_self) h
      | cons d between =>
          obtain ⟨-, rfl⟩ := List.cons.inj rest
          exact List.suffix_append between tail
  · rintro ⟨start, rfl⟩
    exact ⟨front ++ c :: start, by simp⟩

end Text

namespace Version

open Text

variable {version build front : Text} {v w : Text} {m n : Option Text}

/-- A version with build metadata behind it, if there is any. -/
def withBuild (version : Text) : Option Text → Text
  | none => version
  | some build => version ++ '+' :: build

/-- What a version with build metadata is compared as. The number of a candidate is an identifier of its own only if nothing
    stands behind it. -/
def comparedForm (version : Text) : Option Text → Text
  | none => normalizeCandidate version
  | some _ => version

/-- Are these a version without build metadata and build metadata for it? Neither is a candidate with too long a number. -/
structure IsBuildOf (version : Text) (build : Option Text) : Prop where
  valid : isValid version
  plain : '+' ∉ version
  whole : isValid (withBuild version build)
  short : hasLongCandidate version = false
  shortBuild : ∀ text ∈ build, hasLongCandidate text = false

instance (version : Text) (build : Option Text) : Decidable (IsBuildOf version build) :=
  decidable_of_iff (isValid version ∧ '+' ∉ version ∧ isValid (withBuild version build) ∧ hasLongCandidate version = false ∧
      ∀ text ∈ build, hasLongCandidate text = false)
    ⟨fun ⟨valid, plain, whole, short, shortBuild⟩ => ⟨valid, plain, whole, short, shortBuild⟩,
      fun ⟨valid, plain, whole, short, shortBuild⟩ => ⟨valid, plain, whole, short, shortBuild⟩⟩

/-! ## Candidates -/

/-- The number of a candidate is looked for in the build metadata alone. -/
theorem candidateNumber?_append_plus (front build : Text) : candidateNumber? (front ++ '+' :: build) =
    (candidateNumber? build).map fun (stem, digits) => (front ++ '+' :: stem, digits) := by
  have digit : isPlainDigit '+' = false := by decide
  have apart : '+' ∉ ofString "-rc" := by decide
  simp only [candidateNumber?, takeTailWhile_append_cons digit, dropTailWhile_append_cons digit, endsWith_append_cons apart]
  split <;> rfl

theorem hasLongCandidate_append_plus (front build : Text) :
    hasLongCandidate (front ++ '+' :: build) = hasLongCandidate build := by
  simp only [hasLongCandidate, candidateNumber?_append_plus, Option.map_map]
  rfl

theorem splitCandidate_append_plus (front build : Text) :
    splitCandidate (front ++ '+' :: build) = front ++ '+' :: splitCandidate build := by
  unfold splitCandidate
  rw [candidateNumber?_append_plus]
  cases candidateNumber? build with
  | none => rfl
  | some candidate => simp

theorem exists_normalizeCandidate_append_plus (front build : Text) :
    ∃ other, normalizeCandidate (front ++ '+' :: build) = front ++ '+' :: other := by
  unfold normalizeCandidate
  dsimp only
  split
  · exact ⟨_, splitCandidate_append_plus front build⟩
  · exact ⟨build, rfl⟩

theorem IsBuildOf.isComparable (h : IsBuildOf version m) : IsComparable (withBuild version m) := by
  intro _
  cases m with
  | none => exact h.short
  | some build =>
      rw [withBuild, hasLongCandidate_append_plus]
      exact h.shortBuild build rfl

theorem IsBuildOf.withoutBuild (h : IsBuildOf version m) : IsBuildOf version none where
  valid := h.valid
  plain := h.plain
  whole := h.valid
  short := h.short
  shortBuild := nofun

/-! ## Reading -/

theorem parse?_append_plus (plain : '+' ∉ front) (build : Text) : parse? (front ++ '+' :: build) =
    if (build.splitOn '.').all isBuildIdentifier then (parse? front).map ({ · with build := build.splitOn '.' }) else none := by
  have apart : splitMark '+' isBuildIdentifier front = some (front, []) := by
    simp [splitMark, cutAt_eq_none_iff.mpr plain]
  unfold parse?
  rw [apart, splitMark, cutAt_append_cons plain]
  dsimp only
  split
  · simp only [Option.bind_eq_bind, Option.bind_some, Option.pure_def, Option.map_bind, Function.comp_def, Option.map_some]
  · rfl

theorem IsBuildOf.exists_parse? (h : IsBuildOf version m) : ∃ v build, parse? (comparedForm version m) = some v ∧
    parse? (normalizeCandidate (withBuild version m)) = some { v with build := build } := by
  obtain ⟨v, hv⟩ := exists_parse_normalizeCandidate h.whole
  cases m with
  | none => exact ⟨v, v.build, hv, hv⟩
  | some build =>
      obtain ⟨other, hother⟩ := exists_normalizeCandidate_append_plus version build
      have whole := hv
      rw [withBuild, hother, parse?_append_plus h.plain] at whole
      split at whole
      · obtain ⟨u, hu, rfl⟩ := Option.map_eq_some_iff.mp whole
        exact ⟨u, _, hu, hv⟩
      · contradiction

/-! ## Comparing -/

theorem IsBuildOf.exists_compareNewest (hv : IsBuildOf v m) (hw : IsBuildOf w n) : ∃ x y,
    parse? (comparedForm v m) = some x ∧ parse? (comparedForm w n) = some y ∧
      compareNewest (withBuild v m) (withBuild w n) = .ok (precedence y x) := by
  obtain ⟨x, _, hx, hx'⟩ := hv.exists_parse?
  obtain ⟨y, _, hy, hy'⟩ := hw.exists_parse?
  refine ⟨x, y, hx, hy, ?_⟩
  rw [compareNewest_of_isComparable hv.isComparable hw.isComparable, newestFirst_eq_compareTexts hv.whole hw.whole]
  simp only [compareTexts, hx', hy']
  rfl

theorem comparedForm_eq (h : candidateNumber? version = none ∨ m = none) :
    comparedForm version m = normalizeCandidate version := by
  cases m with
  | none => rfl
  | some build =>
      rcases h with h | h
      · exact (normalizeCandidate_of_none h).symm
      · contradiction

/-- Versions with build metadata are in the order of the versions that they are compared as. This is the order without build
    metadata, if none of the versions is a candidate with build metadata behind its number. -/
theorem compareNewest_withBuild (hv : IsBuildOf v m) (hw : IsBuildOf w n) :
    (∃ x y, parse? (comparedForm v m) = some x ∧ parse? (comparedForm w n) = some y ∧
      compareNewest (withBuild v m) (withBuild w n) = .ok (precedence y x)) ∧
    ((candidateNumber? v = none ∨ m = none) → (candidateNumber? w = none ∨ n = none) →
      compareNewest (withBuild v m) (withBuild w n) = compareNewest v w) := by
  refine ⟨hv.exists_compareNewest hw, fun hm hn => ?_⟩
  obtain ⟨x, y, hx, hy, whole⟩ := hv.exists_compareNewest hw
  obtain ⟨x', y', hx', hy', plain⟩ := hv.withoutBuild.exists_compareNewest hw.withoutBuild
  rw [comparedForm_eq hm] at hx
  rw [comparedForm_eq hn] at hy
  obtain rfl := Option.some.inj (hx.symm.trans hx')
  obtain rfl := Option.some.inj (hy.symm.trans hy')
  exact whole.trans plain.symm

/-- A candidate, and one with build metadata whose number is an identifier of its own. -/
theorem compareNewest_withBuild_sample : IsBuildOf (ofString "1.0.0-rc9") none ∧
    IsBuildOf (ofString "1.0.0-rc.10") (some (ofString "nightly-rc07")) ∧
      compareNewest (ofString "1.0.0-rc9") (ofString "1.0.0-rc.10+nightly-rc07") = .ok .gt := by
  have hv : IsBuildOf (ofString "1.0.0-rc9") none := by decide +kernel
  have hw : IsBuildOf (ofString "1.0.0-rc.10") (some (ofString "nightly-rc07")) := by decide +kernel
  have plain : compareNewest (ofString "1.0.0-rc9") (ofString "1.0.0-rc.10") = .ok .gt := by decide +kernel
  exact ⟨hv, hw, ((compareNewest_withBuild hv hw).2 (Or.inr rfl) (Or.inl (by decide))).trans plain⟩

/-- The tenth candidate is newer than the ninth, and with build metadata it is older. -/
theorem compareNewest_candidates_withBuild :
    IsBuildOf (ofString "1.0.0-rc10") (some (ofString "build")) ∧ IsBuildOf (ofString "1.0.0-rc9") (some (ofString "build")) ∧
      compareNewest (ofString "1.0.0-rc10") (ofString "1.0.0-rc9") = .ok .lt ∧
      compareNewest (withBuild (ofString "1.0.0-rc10") (some (ofString "build")))
        (withBuild (ofString "1.0.0-rc9") (some (ofString "build"))) = .ok .gt := by
  decide +kernel

end Version

end Changelog
