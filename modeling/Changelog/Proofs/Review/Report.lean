import Changelog.Proofs.Review.Quiet

/-! # What the report of a review says

A review of a text that comes to an end has found the project, and it has gone through the outline of the text. If it
fixes nothing, what it reports is what can be told from that outline; if it reports nothing at all, the outline has its
title, everything in it is in order, and there is nothing to remark on in its releases and their links.
-/

namespace Changelog.Review

variable {env : Environment} {path : Option Path} {options : Options} {root : Node} {project : Project}
  {sorting : Sorting} {o : Outline}
  {content : Text} {report : Report}

theorem run_of_text (completed : (text env path options content).outcome = .ok report) :
    ∃ result, (run env path options (Document.parse content)).outcome = .ok result ∧
      report.diagnostics = (run env path options (Document.parse content)).diagnostics := by
  cases hrun : (run env path options (Document.parse content)).outcome with
  | error fault => simp [text, hrun, Except.map] at completed
  | ok result =>
      refine ⟨result, rfl, ?_⟩
      cases result with
      | none | some =>
          simp only [text, hrun, Except.map, Except.ok.injEq] at completed
          rw [← completed]

theorem exists_isInspected_of_run {result : Option (List Node)} (lint : options.fix = false) (hpath : isReviewed path)
    (h : (run env path options root).outcome = .ok result) :
    ∃ project, (projectOf env path options).outcome = .ok project ∧
      ∃ isOrdered isDefined releases,
        IsInspected env.sorting (Outline.ofNodes root.children) isOrdered isDefined releases ∧
        (run env path options root).diagnostics =
          (outlineRemarks project root (Outline.ofNodes root.children) isOrdered isDefined releases).map
            (Remark.diagnostic path) := by
  obtain ⟨hroot, project, hproject⟩ := exists_findProject hpath h
  obtain ⟨houtcome, hdiagnostics⟩ := run_lint lint hpath hroot hproject
  rw [houtcome] at h
  cases hreview : (reviewOutline env path options project (fetchOf env path options) root
      (Outline.ofNodes root.children)).outcome with
  | error fault => simp [hreview, Except.map] at h
  | ok reviewed =>
      obtain ⟨isOrdered, isDefined, releases, inspected⟩ := exists_isInspected lint hreview
      refine ⟨project, hproject, isOrdered, isDefined, releases, inspected, ?_⟩
      rw [hdiagnostics, (inspected.reviewOutline lint).2]

/-- An outline on which there is nothing to remark. -/
structure IsClean (project : Project) (o : Outline) : Prop where
  titled : o.hasTitle
  ordered : Release.isSorted o.releases = .ok true
  quiet : remarksAfter [] (Release.relate o.releases) = []
  linked : linkRemarks project o.definitions (Release.relate o.releases) = []
  defined : o.definitions.isSorted = .ok true

theorem IsInspected.isClean {isOrdered isDefined : Bool} {releases : List Release}
    (h : IsInspected sorting o isOrdered isDefined releases)
    (quiet : outlineRemarks project root o isOrdered isDefined releases = []) : IsClean project o := by
  simp only [outlineRemarks, List.append_eq_nil_iff] at quiet
  obtain ⟨⟨⟨⟨title, order⟩, reviewed⟩, links⟩, definitions⟩ := quiet
  have titled : o.hasTitle := by
    cases ht : o.hasTitle with
    | true => rfl
    | false => simp [titleRemarks, ht] at title
  cases isOrdered with
  | false => simp [releaseOrderRemarks] at order
  | true =>
      cases isDefined with
      | false => simp [orderRemarks] at definitions
      | true =>
          obtain rfl : o.releases = releases := Except.ok.inj ((sorting.keeps h.ordered).symm.trans h.reviewed)
          exact ⟨titled, h.ordered, reviewed, links, h.defined⟩

instance (project : Project) (o : Outline) : Decidable (IsClean project o) :=
  decidable_of_iff (o.hasTitle ∧ Release.isSorted o.releases = .ok true ∧ remarksAfter [] (Release.relate o.releases) = [] ∧
      linkRemarks project o.definitions (Release.relate o.releases) = [] ∧ o.definitions.isSorted = .ok true)
    ⟨fun ⟨titled, ordered, quiet, linked, defined⟩ => ⟨titled, ordered, quiet, linked, defined⟩,
      fun ⟨titled, ordered, quiet, linked, defined⟩ => ⟨titled, ordered, quiet, linked, defined⟩⟩

/-- If a review that fixes nothing reports nothing on a text, there is nothing to remark on its outline. -/
theorem isClean_of_text (lint : options.fix = false) (hpath : isReviewed path)
    (completed : (text env path options content).outcome = .ok report) (clean : report.diagnostics = []) :
    ∃ project, (projectOf env path options).outcome = .ok project ∧
      IsClean project (Outline.ofNodes (Document.parse content).children) := by
  obtain ⟨result, hrun, hdiagnostics⟩ := run_of_text completed
  obtain ⟨project, hproject, isOrdered, isDefined, releases, inspected, hremarks⟩ :=
    exists_isInspected_of_run lint hpath hrun
  rw [← hdiagnostics, clean] at hremarks
  exact ⟨project, hproject, inspected.isClean (List.map_eq_nil_iff.mp hremarks.symm)⟩

theorem IsInspected.outcome_text {isOrdered isDefined : Bool} {releases : List Release}
    (h : IsInspected env.sorting (Outline.ofNodes (Document.parse content).children) isOrdered isDefined releases)
    (lint : options.fix = false) (hpath : isReviewed path)
    (hproject : (projectOf env path options).outcome = .ok project) :
    (text env path options content).outcome = .ok {
      diagnostics := (outlineRemarks project (Document.parse content)
        (Outline.ofNodes (Document.parse content).children) isOrdered isDefined releases).map (Remark.diagnostic path)
      content, changed := false } := by
  have hroot : (Document.parse content).kind = .root := rfl
  obtain ⟨houtcome, hdiagnostics⟩ := run_lint lint hpath hroot hproject
  rw [(h.reviewOutline lint).1] at houtcome
  rw [outcome_text_of_none houtcome, hdiagnostics, (h.reviewOutline lint).2]

theorem outcome_text_of_isClean (lint : options.fix = false) (hpath : isReviewed path)
    (hproject : (projectOf env path options).outcome = .ok project)
    (clean : IsClean project (Outline.ofNodes (Document.parse content).children)) :
    (text env path options content).outcome = .ok { diagnostics := [], content, changed := false } := by
  have inspected : IsInspected env.sorting (Outline.ofNodes (Document.parse content).children) true true _ :=
    ⟨clean.ordered, env.sorting.keeps clean.ordered, clean.defined⟩
  rw [inspected.outcome_text lint hpath hproject]
  simp [outlineRemarks, titleRemarks, releaseOrderRemarks, orderRemarks, clean.titled, clean.quiet, clean.linked]

/-! ## A text that nothing is reported on -/

open Text (ofString)

def cleanText : Text :=
  ofString "# Changelog\n\n## [Unreleased]\n\n### Added\n\n- c\n\n" ++
    ofString "## [2.0.0] - 2020-02-02\n\n### Added\n\n- b\n\n## 1.0.0 - 2020-01-01\n\n### Added\n\n- a\n\n" ++
    ofString "[unreleased]: https://github.com/a/b/compare/v2.0.0...HEAD\n" ++
    ofString "[2.0.0]: https://github.com/a/b/compare/v1.0.0...v2.0.0\n"

theorem outcome_text_clean : (text sampleEnvironment none (lintOnly sampleOptions) cleanText).outcome =
    .ok { diagnostics := [], content := cleanText, changed := false } :=
  outcome_text_of_isClean rfl rfl found_sample (by decide +kernel)

end Changelog.Review
