import Changelog.Proofs.Review.Report
import Changelog.Proofs.Version.Neighbours

/-! # Documents without a remark are in order

The review compares neighbours only, and it compares releases without a version by their places. In a document that it
does not remark on every release has a version of its own, so that any two releases are in order, and so are any two
definitions.
-/

namespace Changelog.Review

variable {env : Environment} {path : Option Path} {options : Options} {project : Project} {o : Outline} {r : Release}
  {releases : List Release} {seen : List Text} {content : Text} {report : Report}

theorem not_mem_seen_of_releaseFindings {fix : Bool} (h : releaseFindings fix seen r = []) :
    ∀ version ∈ r.version?, version ∉ seen := by
  unfold releaseFindings headingFindings at h
  intro version hversion known
  split at h
  · contradiction
  · split at h
    · contradiction
    · rw [Option.mem_def.mp hversion] at h
      simp [known] at h

theorem isSettled_of_releaseFindings (h : releaseFindings false seen r = []) : IsSettled r where
  depth := (of_releaseFindings_eq_nil h).1.depth
  isParseable := (of_releaseFindings_eq_nil h).1.isParseable
  title unreleased := by
    obtain ⟨version, hversion⟩ := Option.isSome_iff_exists.mp (of_releaseFindings_eq_nil h).1.version?_eq.2
    unfold releaseFindings headingFindings at h
    split at h
    · contradiction
    · split at h
      · contradiction
      · have known := (List.append_eq_nil_iff.mp h).1
        rw [hversion] at known
        have heading := (List.append_eq_nil_iff.mp known).2
        rw [unreleased] at heading
        split at heading
        · contradiction
        next same =>
          have said : r.title = some (Text.ofString "Unreleased") := by simpa using same
          exact said

/-- Releases on which there is nothing to remark have clear headings as fixing writes them, and their versions differ
    from each other and from those that were seen before. -/
theorem of_remarksAfter_eq_nil (quiet : remarksAfter seen releases = []) :
    (∀ r ∈ releases, IsClear r ∧ IsSettled r) ∧ (∀ r ∈ releases, ∀ version ∈ r.version?, version ∉ seen) ∧
      (releases.filterMap Release.version?).Nodup := by
  induction releases generalizing seen with
  | nil => exact ⟨nofun, nofun, List.nodup_nil⟩
  | cons r rest ih =>
      obtain ⟨first, others⟩ := List.append_eq_nil_iff.mp quiet
      have findings : releaseFindings false seen r = [] := List.map_eq_nil_iff.mp (List.append_eq_nil_iff.mp first).1
      have clear : IsClear r := (of_releaseFindings_eq_nil findings).1
      have settled : IsSettled r := isSettled_of_releaseFindings findings
      have new := not_mem_seen_of_releaseFindings findings
      have readable : isReadable r := by simp [isReadable, clear.depth, clear.isParseable]
      obtain ⟨hclear, hnew, hnodup⟩ := ih others
      rw [seenAfter, if_pos readable] at hnew
      refine ⟨List.forall_mem_cons.mpr ⟨⟨clear, settled⟩, hclear⟩, List.forall_mem_cons.mpr ⟨new, ?_⟩, ?_⟩
      · intro s hs version hversion known
        exact hnew s hs version hversion (List.mem_append_left _ known)
      · obtain ⟨version, hversion⟩ := Option.isSome_iff_exists.mp clear.version?_eq.2
        rw [List.filterMap_cons_some hversion, List.nodup_cons]
        refine ⟨fun again => ?_, hnodup⟩
        obtain ⟨s, hs, hsame⟩ := List.mem_filterMap.mp again
        exact hnew s hs version hsame (List.mem_append_right _ (by simp [hversion]))

theorem remarksAfter_relate (seen : List Text) (releases : List Release) :
    remarksAfter seen (Release.relate releases) = remarksAfter seen releases := by
  induction releases generalizing seen with
  | nil => rfl
  | cons r rest ih => exact congrArg (releaseRemarks seen r ++ ·) (ih (seenAfter seen r))

theorem IsClean.isClear (clean : IsClean project o) :
    (∀ r ∈ o.releases, IsClear r ∧ IsSettled r) ∧ (o.releases.filterMap Release.version?).Nodup := by
  have quiet := clean.quiet
  rw [remarksAfter_relate] at quiet
  obtain ⟨fine, -, distinct⟩ := of_remarksAfter_eq_nil quiet
  exact ⟨fine, distinct⟩

theorem map_version?_eq_map_some (clear : ∀ r ∈ releases, IsClear r) :
    releases.map Release.version? = (releases.filterMap Release.version?).map some := by
  induction releases with
  | nil => rfl
  | cons r rest ih =>
      obtain ⟨hr, hrest⟩ := List.forall_mem_cons.mp clear
      obtain ⟨version, hversion⟩ := Option.isSome_iff_exists.mp hr.version?_eq.2
      rw [List.map_cons, List.filterMap_cons_some hversion, hversion, ih hrest, List.map_cons]

theorem ne_unreleased_of_precedes {a b : Text} (h : Version.Precedes a b) (distinct : a ≠ b) : b ≠ unreleased := by
  rintro rfl
  have order := (Version.newestFirst_isLE_iff a unreleased).mp (Version.precedes_iff.mp h).2
  rcases order with same | same | ⟨other, -⟩
  · exact distinct same
  · exact distinct same
  · exact other rfl

theorem unreleased_not_mem_tail {versions : List Text}
    (sorted : versions.Pairwise fun v w => Version.Precedes v w ∧ v ≠ w) : unreleased ∉ versions.tail := by
  cases versions with
  | nil => exact List.not_mem_nil
  | cons first rest =>
      intro late
      obtain ⟨hprecedes, hne⟩ := (List.pairwise_cons.mp sorted).1 unreleased late
      exact ne_unreleased_of_precedes hprecedes hne rfl

/-- If a review that fixes nothing reports nothing on a text, every release has a version that can be read or is not out
    yet. Any two of them are different and in order, so that only the first may not be out yet, and any two definitions
    are in the order of their identifiers. -/
theorem text_lint_ordered (lint : options.fix = false) (hpath : isReviewed path)
    (completed : (text env path options content).outcome = .ok report) (clean : report.diagnostics = []) :
    let o := Outline.ofNodes (Document.parse content).children
    ∃ versions : List Text, o.releases.map (·.version) = versions.map some ∧
      (∀ version ∈ versions, version = unreleased ∨ Version.isValid version) ∧
      versions.Pairwise (fun v w => Version.Precedes v w ∧ v ≠ w) ∧
      unreleased ∉ versions.tail ∧
      (o.definitions.map (·.1)).Pairwise Version.Precedes := by
  intro o
  obtain ⟨project, -, hclean⟩ := isClean_of_text lint hpath completed clean
  obtain ⟨fine, distinct⟩ := hclean.isClear
  have clear : ∀ r ∈ o.releases, IsClear r := fun r hr => (fine r hr).1
  have said : o.releases.map Release.version? = (o.releases.filterMap Release.version?).map some :=
    map_version?_eq_map_some clear
  have sorted : (o.releases.filterMap Release.version?).Pairwise fun v w => Version.Precedes v w ∧ v ≠ w :=
    (Release.pairwise_precedes_of_isSorted hclean.ordered said).and distinct
  refine ⟨o.releases.filterMap Release.version?, ?_, ?_, sorted, unreleased_not_mem_tail sorted,
    Definitions.pairwise_precedes_of_isSorted hclean.defined⟩
  · rw [← said]
    exact List.map_congr_left fun r hr => (clear r hr).version?_eq.1.symm
  · intro version hversion
    obtain ⟨r, hr, hsome⟩ := List.mem_filterMap.mp hversion
    obtain ⟨own, hown, hkind⟩ := (clear r hr).version
    rw [(clear r hr).version?_eq.1, hown] at hsome
    exact Option.some.inj hsome ▸ hkind

theorem text_lint_ordered_clean :
    let o := Outline.ofNodes (Document.parse cleanText).children
    ∃ versions : List Text, o.releases.map (·.version) = versions.map some ∧
      (∀ version ∈ versions, version = unreleased ∨ Version.isValid version) ∧
      versions.Pairwise (fun v w => Version.Precedes v w ∧ v ≠ w) ∧
      unreleased ∉ versions.tail ∧
      (o.definitions.map (·.1)).Pairwise Version.Precedes :=
  @text_lint_ordered sampleEnvironment none (lintOnly sampleOptions) cleanText ⟨[], cleanText, false⟩ rfl rfl
    outcome_text_clean rfl

end Changelog.Review
