import Changelog.Proofs.Review.Reread
import Changelog.Proofs.Review.Rules
import Changelog.Proofs.Version.Neighbours

/-! # Fixing converges

What fixing takes care of is not reported on again: the title, the order of releases and definitions, the headings
and the links. The other rules ask for what nobody but the author can write.
-/

namespace Changelog

namespace Review

variable {env : Environment} {path : Option Path} {options : Options} {root : Node} {project : Project} {fetch : Fetch}
  {o : Outline} {r : Release} {sorting : Sorting} {ordered releases : List Release} {definitions : Definitions} {seen : List Text}

/-- The rules that fixing takes care of in a document with clear and distinct releases. -/
def settledRules : List Rule :=
  [.title, .latestReleaseFirst, .releaseHeadingDepth, .releaseHeading, .uniqueRelease, .releaseVersionLink,
    .releaseVersionLinkReference, .latestDefinitionFirst]

/-- Is the finding left to the author? -/
def IsLeft (finding : Finding) : Prop := finding.rule ∉ settledRules

instance (finding : Finding) : Decidable (IsLeft finding) := inferInstanceAs (Decidable (_ ∉ _))

theorem isLeft_of_mem_versionFindings {finding : Finding} (h : finding ∈ versionFindings r) : IsLeft finding := by
  have left : ∀ rule ∈ versionRules, rule ∉ settledRules := by decide
  exact left _ (rule_of_mem_versionFindings h)

theorem isLeft_of_mem_groupFindings {version : Option Text} {group : Section} {finding : Finding}
    (h : finding ∈ groupFindings version group) : IsLeft finding := by
  have left : ∀ rule ∈ groupRules, rule ∉ settledRules := by decide
  exact left _ (rule_of_mem_groupFindings h)

/-- A release whose heading is as fixing writes it. -/
structure IsSettled (r : Release) : Prop where
  depth : r.heading.depth = some 2
  isParseable : r.isParseable
  title : r.isUnreleased → r.title = some unreleasedText

theorem releaseFindings_of_isSettled (settled : IsSettled r) (new : ∀ version ∈ r.version?, version ∉ seen) :
    releaseFindings false seen r = if r.isUnreleased then [] else versionFindings r := by
  unfold releaseFindings headingFindings
  simp only [settled.depth, settled.isParseable]
  cases hversion : r.version? with
  | none => simp
  | some version =>
      have hnew := new version hversion
      cases hun : r.isUnreleased with
      | false => simp [hnew]
      | true =>
          have htitle : r.title = some (Text.ofString "Unreleased") := settled.title hun
          simp [hnew, htitle]

theorem isLeft_of_mem_releaseRemarks (settled : IsSettled r) (new : ∀ version ∈ r.version?, version ∉ seen)
    {remark : Remark} (h : remark ∈ releaseRemarks seen r) : IsLeft remark.finding := by
  rcases List.mem_append.mp h with h | h
  · obtain ⟨finding, hfinding, rfl⟩ := List.mem_map.mp h
    rw [releaseFindings_of_isSettled settled new] at hfinding
    split at hfinding
    · contradiction
    · exact isLeft_of_mem_versionFindings hfinding
  · split at h
    · rcases List.mem_append.mp h with h | h
      · split at h
        · rw [List.mem_singleton.mp h]
          exact (by decide : Rule.noEmptyRelease ∉ settledRules)
        · contradiction
      · obtain ⟨group, _, hgroup⟩ := List.mem_flatMap.mp h
        obtain ⟨finding, hfinding, rfl⟩ := List.mem_map.mp hgroup
        exact isLeft_of_mem_groupFindings hfinding
    · contradiction

theorem exists_of_mem_remarksAfter (settled : ∀ r ∈ releases, IsSettled r)
    (distinct : (seen ++ releases.filterMap Release.version?).Nodup)
    {remark : Remark} (h : remark ∈ remarksAfter seen releases) :
    ∃ r ∈ releases, ∃ seen, (∀ version ∈ r.version?, version ∉ seen) ∧ remark ∈ releaseRemarks seen r := by
  induction releases generalizing seen with
  | nil => contradiction
  | cons r rest ih =>
      have readable : isReadable r := by
        have := settled r List.mem_cons_self
        simp [isReadable, this.depth, this.isParseable]
      have after : seenAfter seen r = seen ++ r.version?.toList := if_pos readable
      rcases List.mem_append.mp h with h | h
      · refine ⟨r, List.mem_cons_self, seen, ?_, h⟩
        intro version hversion hseen
        rw [List.filterMap_cons, Option.mem_def.mp hversion] at distinct
        exact (List.nodup_append.mp distinct).2.2 version hseen version List.mem_cons_self rfl
      · have distinct' : (seenAfter seen r ++ rest.filterMap Release.version?).Nodup := by
          rw [after]
          cases hversion : r.version? with
          | none => simpa [List.filterMap_cons, hversion] using distinct
          | some version => simpa [List.filterMap_cons, hversion] using distinct
        obtain ⟨s, hs, found⟩ := ih (fun s hs => settled s (List.mem_cons_of_mem r hs)) distinct' h
        exact ⟨s, List.mem_cons_of_mem r hs, found⟩

theorem isLeft_of_mem_remarksAfter (settled : ∀ r ∈ releases, IsSettled r)
    (distinct : (releases.filterMap Release.version?).Nodup)
    {remark : Remark} (h : remark ∈ remarksAfter [] releases) : IsLeft remark.finding := by
  obtain ⟨r, hr, _, new, hremark⟩ := exists_of_mem_remarksAfter settled distinct h
  exact isLeft_of_mem_releaseRemarks (settled r hr) new hremark

/-! ## The fixed document -/

theorem hasTitle_of_heading {title : Option Node} (h : o.heading = some (fixedTitle title)) : o.hasTitle := by
  simp only [Outline.hasTitle, h, fixedTitle]
  cases title with
  | none => rfl
  | some t =>
      by_cases hdepth : t.depth = some 1
      · simp [hdepth, Outline.titleNode, Node.heading, Node.soleChild?, Node.ofText]
      · simp only [hdepth, if_false]
        rfl

section

variable {blocks : List Node} {others : List Release} {entries : Definitions}

theorem map_version?_of_told (told : List.Forall₂ (fun r s => IsToldOf r s.toReleaseHeading) releases others) :
    others.map Release.version? = releases.map Release.version? :=
  map_eq_map_of_forall₂ (told.imp fun r s hrs => by rw [Release.version?, Release.version?, hrs.version])

theorem IsFix.isSorted_of_told (h : IsFix sorting path project fetch o ordered releases definitions)
    (versions : ∀ r ∈ o.releases, r.version?.isSome)
    (told : List.Forall₂ (fun r s => IsToldOf r s.toReleaseHeading) releases others) :
    Release.isSorted others = .ok true := by
  have inOrder := (sorting.sorts h.arranged (Release.isTransitiveOn_newestFirst versions)).2
  refine Release.isSorted_of_version? inOrder ((map_version?_of_told told).trans h.map_version?) ?_
  have versioned : ∀ s ∈ others, s.version?.isSome := by
    intro s hs
    have hmem : s.version? ∈ others.map Release.version? := List.mem_map_of_mem hs
    rw [map_version?_of_told told, h.map_version?] at hmem
    obtain ⟨r, hr, hversion⟩ := List.mem_map.mp hmem
    exact hversion ▸ versions r ((sorting.perm h.arranged).mem_iff.mp hr)
  refine List.pairwise_of_forall_mem_list fun r hr s hs none => ?_
  rcases none with none | none
  · exact absurd (versioned r hr) (by simp [none])
  · exact absurd (versioned s hs) (by simp [none])

theorem isSorted_of_sort {unsorted : Definitions} (h : unsorted.sort = .ok definitions)
    (same : entries.keys = definitions.keys) : entries.isSorted = .ok true := by
  unfold Definitions.sort Version.sortNewest at h
  split at h
  · contradiction
  next comparable =>
    cases h
    have known : ∀ a ∈ (stableSort (fun a b => Version.newestFirst a.1 b.1) unsorted).map (·.1),
        ∀ b ∈ (stableSort (fun a b => Version.newestFirst a.1 b.1) unsorted).map (·.1),
          Version.compareNewest a b = .ok (Version.newestFirst a b) := by
      intro a ha b hb
      rw [((stableSort_perm unsorted).map _).mem_iff] at ha hb
      exact Version.compareNewest_eq_ok (Version.clash_eq_false (by simpa using comparable) ha hb)
    rw [Definitions.isSorted, show entries.map (·.1) = _ from same]
    refine isSortedBy_of_pairwise known (List.pairwise_map.mpr ?_)
    exact (isStableSort_on (fun a : Text × Node => a.1) isTransitiveOn_of_transCmp).ordered

theorem IsFix.linkRemarks_of_told (h : IsFix sorting path project fetch (Outline.ofNodes blocks) ordered releases definitions)
    (distinct : ((releases.filterMap Release.version?).map Text.lowercase).Nodup)
    (told : List.Forall₂ (fun r s => IsToldOf r s.toReleaseHeading) releases others)
    (urls : ∀ key, (entries.find? key).bind Node.url = (definitions.find? key).bind Node.url) :
    linkRemarks project entries (Release.relate others) = [] := by
  have related := Release.forall₂_relate (fun r s hrs => hrs.version) told h.related
  rw [linkRemarks_eq (Release.relate_eq_self (List.forall₂_same.mpr fun _ _ => ⟨rfl, rfl⟩)), List.flatMap_eq_nil_iff]
  intro s hs
  obtain ⟨r, hr, s', hrs, rfl⟩ := exists_left_of_forall₂ related hs
  rw [List.map_eq_nil_iff]
  refine linkFindings_eq_nil fun link hlink => ?_
  have hlink' : link? r = some link := by
    rw [← hlink]
    exact (@link?_congr r { s' with previous := r.previous } hrs.version rfl).symm
  refine ⟨hrs.link (by rw [hlink']; rfl), ?_⟩
  rw [urls, Definitions.find?_perm h.isKeyed.1.nodup h.isKeyed.2.perm, Definitions.find?_addAll,
    lastOf_linkNodes distinct hr hlink' blocks]
  rfl

/-- An outline that says the same as a fixed one is reported on only for what stands in its releases. -/
theorem IsFix.reviewOutline_of_told (h : IsFix sorting path project fetch (Outline.ofNodes blocks) ordered releases definitions)
    (versions : ∀ r ∈ (Outline.ofNodes blocks).releases, r.version?.isSome)
    (distinct : (((Outline.ofNodes blocks).releases.filterMap Release.version?).map Text.lowercase).Nodup)
    (lint : options.fix = false) {again : Fetch} {other : Outline} (titled : other.hasTitle)
    (told : List.Forall₂ (fun r s => IsToldOf r s.toReleaseHeading) releases other.releases)
    (keys : other.definitions.keys = definitions.keys)
    (urls : ∀ key, (other.definitions.find? key).bind Node.url = (definitions.find? key).bind Node.url) :
    (∃ o', (reviewOutline env path options project again root other).outcome = .ok o') ∧
      (reviewOutline env path options project again root other).diagnostics =
        (remarksAfter [] (Release.relate other.releases)).map (Remark.diagnostic path) := by
  have distinct' : ((releases.filterMap Release.version?).map Text.lowercase).Nodup := by
    rw [filterMap_eq_of_map_eq h.map_version?]
    exact (((sorting.perm h.arranged).filterMap _).map _).nodup_iff.mpr distinct
  obtain ⟨hok, hdiagnostics⟩ := @reviewOutline_lint env path options root project again other _ lint titled
    (h.isSorted_of_told versions told) (isSorted_of_sort h.sorted keys)
  refine ⟨⟨_, hok⟩, hdiagnostics.trans ?_⟩
  rw [h.linkRemarks_of_told distinct' told urls]
  simp [orderRemarks]

theorem IsFix.nodup_of_told (h : IsFix sorting path project fetch o ordered releases definitions)
    (distinct : ((o.releases.filterMap Release.version?).map Text.lowercase).Nodup)
    (told : List.Forall₂ (fun r s => IsToldOf r s.toReleaseHeading) releases others) :
    ((Release.relate others).filterMap Release.version?).Nodup := by
  have same : (Release.relate others).map Release.version? = ordered.map Release.version? := by
    rw [Release.map_relate (fun _ _ => rfl), map_version?_of_told told, h.map_version?]
  rw [filterMap_eq_of_map_eq same]
  exact ((sorting.perm h.arranged).filterMap _).nodup_iff.mpr (distinct.of_map _)

theorem IsClear.startsRelease (clear : IsClear r) (placed : IsPlaced r) : r.heading.startsRelease := by
  have hkind := Node.kind_of_headingDepth?_isSome placed.heading
  simp [Node.startsRelease, Node.headingDepth?, hkind, clear.depth]

theorem IsFix.isClear (h : IsFix sorting path project fetch o ordered releases definitions) (clear : ∀ r ∈ o.releases, IsClear r) :
    ∀ r ∈ releases, IsClear r := by
  intro r hr
  obtain ⟨source, hsource, previous, hfilled⟩ := h.exists_source hr
  obtain ⟨hdepth, hparseable, hversion⟩ := clear source hsource
  have related : IsClear { source with previous } := ⟨hdepth, hparseable, hversion⟩
  exact related.isBackfilled hfilled

/-- A fixed outline is reported on only for what is left to the author. -/
theorem isLeft_of_mem_reviewOutline (h : IsFix sorting path project fetch (Outline.ofNodes blocks) ordered releases definitions)
    (clear : ∀ r ∈ (Outline.ofNodes blocks).releases, IsClear r)
    (distinct : (((Outline.ofNodes blocks).releases.filterMap Release.version?).map Text.lowercase).Nodup)
    (lint : options.fix = false) {again : Fetch} :
    let review := reviewOutline env path options project again root
      (Outline.ofLayout (fixedLayout (Outline.ofNodes blocks) releases) definitions)
    (∃ o', review.outcome = .ok o') ∧
      ∀ d ∈ review.diagnostics, ∃ finding, IsLeft finding ∧ d.rule = finding.rule.name := by
  intro review
  have clear' := h.isClear clear
  have reread := forall₂_isReread fun r => h.isPlaced
  have told := reread.imp fun r s hrs => hrs.told
  have titled : (Outline.ofLayout (fixedLayout (Outline.ofNodes blocks) releases) definitions).hasTitle :=
    hasTitle_of_heading rfl
  obtain ⟨hok, hdiagnostics⟩ := h.reviewOutline_of_told (fun r hr => (clear r hr).version?_eq.2) distinct lint titled told
    rfl fun _ => rfl
  refine ⟨hok, ?_⟩
  have settled : ∀ s ∈ Release.relate (rereleases releases), IsSettled s := by
    intro s hs
    obtain ⟨s', hs', previous, rfl⟩ := Release.exists_of_mem_relate hs
    obtain ⟨r, hr, hrs⟩ := exists_left_of_forall₂ reread hs'
    refine ⟨?_, hrs.told.isParseable.trans (clear' r hr).isParseable, fun hun => hrs.told.title (of_decide_eq_true hun)⟩
    exact (congrArg Node.depth hrs.heading).trans (clear' r hr).depth
  intro d hd
  rw [show review.diagnostics = _ from hdiagnostics] at hd
  obtain ⟨remark, hremark, rfl⟩ := List.mem_map.mp hd
  exact ⟨remark.finding, isLeft_of_mem_remarksAfter settled (h.nodup_of_told distinct told) hremark, rfl⟩

end

/-- What some options ask for, but nothing is fixed. -/
def lintOnly (options : Options) : Options := { options with fix := false }

theorem isLeft_of_mem_nameRemarks {remark : Remark} (h : remark ∈ nameRemarks path root) : IsLeft remark.finding := by
  unfold nameRemarks at h
  split at h
  · split at h
    · rw [List.mem_singleton.mp h]
      exact (by decide : Rule.filename ∉ settledRules)
    · contradiction
  · contradiction

theorem run_lint (lint : options.fix = false) (hpath : isReviewed path) (hroot : root.kind = .root)
    (hproject : (projectOf env path options).outcome = .ok project) :
    let review := reviewOutline env path options project (fetchOf env path options) root (Outline.ofNodes root.children)
    (run env path options root).outcome = review.outcome.map (fun _ => none) ∧
      (run env path options root).diagnostics = review.diagnostics := by
  intro review
  refine ⟨?_, diagnostics_run hpath hroot hproject⟩
  rw [outcome_run hpath hroot hproject, lint]
  rfl

theorem outcome_tree_eq_ok {diagnostics : List Diagnostic} {fixed : Node} :
    (tree env path options root).outcome = .ok (diagnostics, fixed) ↔
      ∃ blocks, (run env path options root).outcome = .ok blocks ∧
        diagnostics = (run env path options root).diagnostics ∧
        fixed = { root with children := blocks.getD root.children } := by
  cases hrun : (run env path options root).outcome with
  | error fault => simp [tree, hrun, Except.map]
  | ok blocks => simp [tree, hrun, Except.map, eq_comm]

theorem outcome_tree_of_none (h : (run env path options root).outcome = .ok none) :
    (tree env path options root).outcome = .ok ((run env path options root).diagnostics, root) := by
  refine outcome_tree_eq_ok.mpr ⟨none, h, rfl, ?_⟩
  cases root
  rfl

/-- After fixing, a review without fixing reports by no rule that fixing takes care of. -/
theorem tree_lint_after_fix {diagnostics : List Diagnostic} {fixed : Node} (fix : options.fix) (noAdd : options.add = none)
    (clear : ∀ r ∈ (Outline.ofNodes root.children).releases, IsClear r)
    (distinct : (((Outline.ofNodes root.children).releases.filterMap (·.version)).map Text.lowercase).Nodup)
    (completed : (tree env path options root).outcome = .ok (diagnostics, fixed)) :
    ∃ remaining, (tree env path (lintOnly options) fixed).outcome = .ok (remaining, fixed) ∧
      ∀ d ∈ remaining, ∀ rule ∈ settledRules, d.rule ≠ rule.name := by
  have told : ∀ {d : Diagnostic} {finding : Finding}, IsLeft finding → d.rule = finding.rule.name →
      ∀ rule ∈ settledRules, d.rule ≠ rule.name := by
    intro d finding left hd rule hrule heq
    exact left (Rule.name_injective (hd.symm.trans heq) ▸ hrule)
  obtain ⟨result, hresult, _, hfixed⟩ := outcome_tree_eq_ok.mp completed
  cases hpath : isReviewed path with
  | false =>
      obtain ⟨directory, hdirectory⟩ := exists_directory_of_run hresult
      obtain ⟨hnone, hremarks⟩ := @run_of_not_isReviewed env path (lintOnly options) fixed directory hpath hdirectory
      refine ⟨_, outcome_tree_of_none hnone, ?_⟩
      rw [hremarks]
      intro d hd
      obtain ⟨remark, hremark, rfl⟩ := List.mem_map.mp hd
      exact told (isLeft_of_mem_nameRemarks hremark) rfl
  | true =>
      obtain ⟨blocks, rfl⟩ := Option.isSome_iff_exists.mp (isSome_of_run_fix fix hpath hresult)
      obtain ⟨_, hroot, project, hproject, ordered, releases, definitions, h, rfl⟩ := (outcome_run_fix fix noAdd).mp hresult
      have distinct' : (((Outline.ofNodes root.children).releases.filterMap Release.version?).map Text.lowercase).Nodup := by
        rwa [List.filterMap_congr fun r hr => (clear r hr).version?_eq.1]
      have later : ∀ r ∈ releases.tail, r.heading.startsRelease := fun r hr =>
        (h.isClear clear r (List.mem_of_mem_tail hr)).startsRelease (h.isPlaced (List.mem_of_mem_tail hr))
      have outline : Outline.ofNodes fixed.children =
          Outline.ofLayout (fixedLayout (Outline.ofNodes root.children) releases) definitions := by
        rw [hfixed]
        exact h.ofNodes_nodes later
      have hkind : fixed.kind = .root := hfixed ▸ hroot
      have hproject' : (projectOf env path (lintOnly options)).outcome = .ok project := hproject
      obtain ⟨hnone, hremarks⟩ := run_lint rfl hpath hkind hproject'
      rw [outline] at hnone hremarks
      have lint : (lintOnly options).fix = false := rfl
      obtain ⟨⟨o', hok⟩, hleft⟩ := isLeft_of_mem_reviewOutline h clear distinct' lint
      rw [hok] at hnone
      refine ⟨_, outcome_tree_of_none hnone, ?_⟩
      rw [hremarks]
      intro d hd
      obtain ⟨finding, left, hrule⟩ := hleft d hd
      exact told left hrule

theorem isClear_of_mem_sample : ∀ r ∈ (Outline.ofNodes sampleRoot.children).releases, IsClear r := by
  have checked : ∀ r ∈ (Outline.ofNodes sampleRoot.children).releases, r.heading.depth = some 2 ∧ r.isParseable ∧
      r.version.any Version.isValid := by decide +kernel
  intro r hr
  obtain ⟨hdepth, hparseable, hversion⟩ := checked r hr
  obtain ⟨version, hsome, hvalid⟩ := (Option.any_eq_true _ _).mp hversion
  exact ⟨hdepth, hparseable, version, hsome, Or.inr hvalid⟩

theorem tree_lint_after_fix_sample : ∃ remaining,
    (tree sampleEnvironment none (lintOnly sampleOptions) { sampleRoot with children := sampleBlocks }).outcome =
        .ok (remaining, { sampleRoot with children := sampleBlocks }) ∧
      ∀ d ∈ remaining, ∀ rule ∈ settledRules, d.rule ≠ rule.name :=
  tree_lint_after_fix rfl rfl isClear_of_mem_sample (by decide +kernel)
    (outcome_tree_eq_ok.mpr ⟨some sampleBlocks, outcome_run_sample, rfl, rfl⟩)

end Review

end Changelog
