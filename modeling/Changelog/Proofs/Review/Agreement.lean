import Changelog.Proofs.Review.Ordered

/-! # Fixing and not fixing agree

A review that fixes a document reports what it leaves to the author. One that does not fix it reports the same, and
besides what fixing mends: the title, the order of releases and definitions, the links, and what else stands in the
heading of what is not released yet. Both go through the releases in the same order, and at each of them they have seen
the same versions.
-/

namespace Changelog

/-- Is this mended by fixing? -/
def Finding.isMended : Finding → Bool
  | noTitle | releasesUnsorted | definitionsUnsorted | impureUnreleased | noLink | inlineLink | otherTarget _ => true
  | _ => false

namespace Review

open Text (ofString)

/-- The rules of which nothing is left after fixing. -/
def mendedRules : List Rule :=
  [.title, .latestReleaseFirst, .latestDefinitionFirst, .releaseVersionLink, .releaseVersionLinkReference]

/-- Does a diagnostic go by such a rule, or does it speak of the heading of what is not released yet? -/
def isMended (d : Diagnostic) : Bool :=
  mendedRules.any (fun rule => d.rule = rule.name) ||
    d.rule = Rule.releaseHeading.name && d.message = ofString "Release heading must be \"Unreleased\""

variable {env : Environment} {path : Option Path} {options : Options} {root : Node} {project : Project} {fetch : Fetch}
  {schedule : List Nat} {o : Outline} {r : Release} {releases : List Release} {seen : List Text} {content : Text}
  {report again : Report}

theorem isMended_diagnostic (path : Option Path) (remark : Remark) :
    isMended (remark.diagnostic path) = remark.finding.isMended := by
  have named : ∀ rule : Rule, decide ((remark.diagnostic path).rule = rule.name) = decide (remark.finding.rule = rule) :=
    fun rule => decide_eq_decide.mpr ⟨Rule.name_injective, congrArg Rule.name⟩
  have message : (remark.diagnostic path).message = remark.finding.message := rfl
  unfold isMended
  simp only [named, message]
  cases remark.finding <;> rfl

/-- What is left of some remarks when those are taken out that fixing mends. -/
def unmended (remarks : List Remark) : List Remark := remarks.filter fun remark => !remark.finding.isMended

theorem filter_map_diagnostic (path : Option Path) (remarks : List Remark) :
    (remarks.map (Remark.diagnostic path)).filter (fun d => !isMended d) =
      (unmended remarks).map (Remark.diagnostic path) := by
  rw [List.filter_map]
  congr 2
  funext remark
  exact congrArg (!·) (isMended_diagnostic path remark)

theorem unmended_append (xs ys : List Remark) : unmended (xs ++ ys) = unmended xs ++ unmended ys := List.filter_append ..

theorem unmended_eq_self {remarks : List Remark} (h : ∀ remark ∈ remarks, remark.finding.isMended = false) :
    unmended remarks = remarks := by
  refine List.filter_eq_self.mpr fun remark hremark => ?_
  rw [h remark hremark]
  rfl

theorem unmended_eq_nil {remarks : List Remark} (h : ∀ remark ∈ remarks, remark.finding.isMended) :
    unmended remarks = [] := by
  refine List.filter_eq_nil_iff.mpr fun remark hremark => ?_
  simp [h remark hremark]

theorem isMended_of_isLeft {finding : Finding} (left : IsLeft finding) : finding.isMended = false := by
  have settled : finding.isMended → finding.rule ∈ settledRules := by
    cases finding with
    | otherTarget url => exact fun _ => (by decide : Rule.releaseVersionLink ∈ settledRules)
    | noTitle | releasesUnsorted | definitionsUnsorted | impureUnreleased | noLink | inlineLink => decide
    | _ => exact nofun
  cases mended : finding.isMended with
  | false => rfl
  | true => exact absurd (settled mended) left

/-! ## Releases -/

/-- Of what is wrong with a heading only that is let pass which fixing mends. -/
theorem releaseFindings_fix (seen : List Text) (r : Release) :
    releaseFindings true seen r = (releaseFindings false seen r).filter (!·.isMended) := by
  have versions : (versionFindings r).filter (!·.isMended) = versionFindings r := by
    refine List.filter_eq_self.mpr fun finding hfinding => ?_
    rw [isMended_of_isLeft (isLeft_of_mem_versionFindings hfinding)]
    rfl
  unfold releaseFindings
  split
  · rfl
  · split
    · rfl
    · unfold headingFindings
      simp only [List.filter_append]
      congr 1
      · cases r.version? with
        | none => rfl
        | some version =>
            simp only [List.filter_append, Bool.not_true, Bool.false_and, Bool.false_eq_true, if_false]
            congr 1
            · split <;> rfl
            · split <;> rfl
      · split
        · rfl
        · exact versions.symm

theorem unmended_groupRemarks (r : Release) (groups : List Section) :
    unmended (groups.flatMap (groupRemarks r)) = groups.flatMap (groupRemarks r) := by
  refine unmended_eq_self fun remark hremark => ?_
  obtain ⟨group, -, hgroup⟩ := List.mem_flatMap.mp hremark
  obtain ⟨finding, hfinding, rfl⟩ := List.mem_map.mp hgroup
  exact isMended_of_isLeft (isLeft_of_mem_groupFindings hfinding)

theorem diagnostics_reviewRelease_fix (filled : r.isEmpty = false) :
    (reviewRelease path true project fetch seen r).diagnostics =
      (unmended (releaseRemarks seen r)).map (Remark.diagnostic path) := by
  have heading : headingRemarks true seen r = unmended (headingRemarks false seen r) := by
    rw [headingRemarks, releaseFindings_fix, headingRemarks, unmended, List.filter_map]
    rfl
  rw [diagnostics_reviewRelease_of_filled filled, releaseRemarks_of_filled filled, unmended_append, heading]
  cases isReadable r with
  | false => rfl
  | true => rw [if_pos rfl, unmended_groupRemarks]

theorem diagnostics_reviewReleases_fix (filled : ∀ r ∈ releases, r.isEmpty = false) :
    (reviewReleases schedule path true project fetch releases).diagnostics =
      (unmended (remarksAfter [] releases)).map (Remark.diagnostic path) := by
  rw [diagnostics_reviewReleases_of_unpaused (.inr filled)]
  generalize ([] : List Text) = seen
  induction releases generalizing seen with
  | nil => rfl
  | cons r rest ih =>
      obtain ⟨hfilled, hrest⟩ := List.forall_mem_cons.mp filled
      rw [reviews, List.flatMap_cons, diagnostics_reviewRelease_fix hfilled, ih hrest, remarksAfter, unmended_append,
        List.map_append]

/-! ## Outlines -/

theorem isMended_of_mem_linkRemarks {definitions : Definitions} {remark : Remark}
    (h : remark ∈ linkRemarks project definitions releases) : remark.finding.isMended := by
  induction releases with
  | nil => contradiction
  | cons r rest ih =>
      rcases List.mem_append.mp h with h | h
      · obtain ⟨finding, hfinding, rfl⟩ := List.mem_map.mp h
        unfold linkFindings at hfinding
        split at hfinding
        · contradiction
        · split at hfinding
          · rw [List.mem_singleton.mp hfinding]
            rfl
          · dsimp only at hfinding
            split at hfinding
            · contradiction
            · rw [List.mem_singleton.mp hfinding]
              rfl
          · rw [List.mem_singleton.mp hfinding]
            rfl
      · exact ih h

theorem unmended_outlineRemarks (isOrdered isDefined : Bool) :
    unmended (outlineRemarks project root o isOrdered isDefined releases) =
      unmended (remarksAfter [] (Release.relate releases)) := by
  have title : unmended (titleRemarks root o) = [] := by
    unfold titleRemarks
    split <;> rfl
  have order : unmended (releaseOrderRemarks root isOrdered) = [] := by cases isOrdered <;> rfl
  have links : unmended (linkRemarks project o.definitions (Release.relate releases)) = [] :=
    unmended_eq_nil fun _ => isMended_of_mem_linkRemarks
  have definitions : unmended (orderRemarks root isDefined) = [] := by cases isDefined <;> rfl
  simp only [outlineRemarks, unmended_append, title, order, links, definitions, List.nil_append, List.append_nil]

/-! ## Texts -/

/-- A review that fixes a text without empty releases reports the same as one that does not fix it, without what fixing
    mends. -/
theorem text_fix_agrees_with_lint (fix : options.fix) (noAdd : options.add = none)
    (filled : ∀ r ∈ (Outline.ofNodes (Document.parse content).children).releases, r.isEmpty = false)
    (fixed : (text env path options content).outcome = .ok report)
    (linted : (text env path (lintOnly options) content).outcome = .ok again) :
    report.diagnostics = again.diagnostics.filter fun d => !isMended d := by
  obtain ⟨result, hfix, hreport⟩ := run_of_text fixed
  obtain ⟨result', hlint, hagain⟩ := run_of_text linted
  rw [hreport, hagain]
  cases hpath : isReviewed path with
  | false =>
      obtain ⟨directory, hdirectory⟩ := exists_directory_of_run hfix
      have hdirectory' : projectDirectory env (lintOnly options) path = .ok directory := hdirectory
      rw [(run_of_not_isReviewed hpath hdirectory).2, (run_of_not_isReviewed hpath hdirectory').2, filter_map_diagnostic,
        unmended_eq_self fun remark hremark => isMended_of_isLeft (isLeft_of_mem_nameRemarks hremark)]
  | true =>
      obtain ⟨blocks, rfl⟩ := Option.isSome_iff_exists.mp (isSome_of_run_fix fix hpath hfix)
      obtain ⟨_, hroot, project, hproject, ordered, releases, definitions, h, -⟩ := (outcome_run_fix fix noAdd).mp hfix
      obtain ⟨project', -, isOrdered, isDefined, reviewed, inspected, hremarks⟩ := exists_isInspected_of_run rfl hpath hlint
      -- whether it fixes or not, a review goes through the releases in the same order
      obtain rfl : ordered = reviewed := Except.ok.inj (h.arranged.symm.trans inspected.reviewed)
      have filled' : ∀ r ∈ Release.relate ordered, r.isEmpty = false := by
        intro r hr
        obtain ⟨s, hs, previous, rfl⟩ := Release.exists_of_mem_relate hr
        exact filled s ((env.sorting.perm h.arranged).mem_iff.mp hs)
      rw [diagnostics_run_fix fix noAdd hpath hroot hproject h, diagnostics_reviewReleases_fix filled', hremarks,
        filter_map_diagnostic, unmended_outlineRemarks]

/-- A document without a title and without links, with more than one word for what is not released yet, a date that is
    none, and a group of no known type. -/
def roughText : Text :=
  ofString "## Unreleased changes\n\n### Added\n\n- c\n\n## 2.0.0 - soon\n\n### Odd\n\n- b\n\n" ++
    ofString "## 1.0.0 - 2020-01-01\n\n### Added\n\n- a\n"

theorem text_fix_agrees_with_lint_rough : ∃ report again,
    (text sampleEnvironment none sampleOptions roughText).outcome = .ok report ∧
      (text sampleEnvironment none (lintOnly sampleOptions) roughText).outcome = .ok again ∧
      again.diagnostics.any isMended ∧ again.diagnostics.any (fun d => !isMended d) ∧
      report.diagnostics = again.diagnostics.filter fun d => !isMended d := by
  obtain ⟨ordered, defined, filled⟩ :
      let o := Outline.ofNodes (Document.parse roughText).children
      IsOrdered sampleProject o ∧ o.definitions.isSorted = .ok true ∧ ∀ r ∈ o.releases, r.isEmpty = false := by
    decide +kernel
  have inspected : IsInspected .merging (Outline.ofNodes (Document.parse roughText).children) true true _ :=
    ⟨ordered.isSorted, Sorting.merging.keeps ordered.isSorted, defined⟩
  have fixed := @outcome_text_of_isOrdered sampleEnvironment none sampleOptions sampleProject roughText _ rfl rfl rfl
    found_sample ⟨ordered, rfl⟩
  have linted := @inspected.outcome_text sampleEnvironment none (lintOnly sampleOptions) sampleProject roughText _ _ _ rfl rfl
    found_sample
  refine ⟨_, _, fixed, linted, by decide +kernel, by decide +kernel, ?_⟩
  exact text_fix_agrees_with_lint rfl rfl filled fixed linted

end Review

end Changelog
