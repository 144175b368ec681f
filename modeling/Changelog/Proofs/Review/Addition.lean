import Changelog.Proofs.Outline.Unreleased
import Changelog.Proofs.Review.Rules
import Changelog.Proofs.Version.Comparison
import Changelog.Proofs.Version.Written
import Changelog.Review.Run

/-! # A bump adds the newest release

The version that a bump is taken of is the newest one that can be read, and a bump makes it newer still. So the release
that is added is newer than all those that were there, and it is sorted in front of them. This rests on its heading
saying the version that was asked for, which it does not if that version speaks of what is not released yet.
-/

namespace Changelog

/-! ## Releases with versions -/

/-- Has every release a version, and can these be compared? -/
structure Release.IsVersioned (releases : List Release) : Prop where
  named : ∀ r ∈ releases, r.version?.isSome
  comparable : ∀ r ∈ releases, ∀ version ∈ r.version?, Version.IsComparable version

namespace Release

variable {sorting : Sorting} {r : Release} {releases : List Release} {version : Text}

theorem version?_eq_version (h : r.version?.isSome) : r.version? = r.version := by
  obtain ⟨version, hversion⟩ := Option.isSome_iff_exists.mp h
  rw [hversion, Option.eq_some_of_filter_eq_some hversion]

theorem isVersioned_of_short (named : ∀ r ∈ releases, r.version?.isSome)
    (short : ∀ r ∈ releases, ∀ version ∈ r.version?, Version.hasLongCandidate version = false) : IsVersioned releases :=
  ⟨named, fun r hr version hversion _ => short r hr version hversion⟩

namespace IsVersioned

theorem concat (h : IsVersioned releases) (named : r.version? = some version) (comparable : Version.IsComparable version) :
    IsVersioned (releases ++ [r]) where
  named s hs := by
    rcases List.mem_append.mp hs with hs | hs
    · exact h.named s hs
    · rw [List.mem_singleton.mp hs, named]
      rfl
  comparable s hs := by
    rcases List.mem_append.mp hs with hs | hs
    · exact h.comparable s hs
    · rw [List.mem_singleton.mp hs, named]
      rintro _ ⟨⟩
      exact comparable

theorem sort_eq_ok (h : IsVersioned releases) : sorting.sort releases = .ok (stableSort newestFirst releases) := by
  refine Sorting.sort_eq_ok (Version.anyClash_eq_false_of_isComparable fun version hversion => ?_)
    (isTransitiveOn_newestFirst h.named)
  obtain ⟨r, hr, hsome⟩ := List.mem_filterMap.mp hversion
  exact h.comparable r hr version hsome

theorem pairwise_stableSort (h : IsVersioned releases) :
    ((stableSort newestFirst releases).filterMap (·.version)).Pairwise fun v w => (Version.newestFirst v w).isLE := by
  have ordered := (isStableSort_stableSort (isTransitiveOn_newestFirst h.named)).ordered
  refine List.pairwise_filterMap.mpr (ordered.imp_of_mem fun {r s} hr hs hle v hv w hw => ?_)
  have hr' := version?_eq_version (h.named r (mem_stableSort.mp hr))
  have hs' := version?_eq_version (h.named s (mem_stableSort.mp hs))
  simpa only [newestFirst, hr', hs', hv, hw] using hle

end IsVersioned

end Release

namespace Review

open Version

variable {env : Environment} {path : Option Path} {options : Options} {root : Node} {project : Project} {fetch : Fetch}
  {sorting : Sorting} {o arranged fixed : Outline} {r : Release} {releases : List Release} {keyword version newest : Text}
  {diagnostic : Diagnostic}

/-! ## The version that is bumped -/

/-- The version that a bump is taken of: the newest one of the releases, or else the current one of the project. -/
def baseVersion (sorting : Sorting) (project : Project) (releases : List Release) : Text :=
  match newestVersion? sorting releases with
  | .ok (some newest) => newest
  | _ => project.version

/-- Is a version the latest one of the releases that can be read, or the current one if none can be? -/
inductive IsBase (project : Project) (releases : List Release) : Text → Prop
  | newest {r : Release} {version : Text} : r ∈ releases → r.version = some version → isValid version →
    (∀ s ∈ releases, ∀ w ∈ s.version, isNewer w version = .ok false) → IsBase project releases version
  | current : (∀ s ∈ releases, ∀ w ∈ s.version, isValid w = false) → IsBase project releases project.version

theorem newestVersion?_eq_ok (versioned : Release.IsVersioned releases) : newestVersion? sorting releases =
    .ok (((stableSort Release.newestFirst releases).filterMap (·.version)).find? isValid) := by
  rw [newestVersion?, versioned.sort_eq_ok]
  rfl

theorem exists_newestVersion? (versioned : Release.IsVersioned releases) : ∃ newest, newestVersion? sorting releases = .ok newest :=
  ⟨_, newestVersion?_eq_ok versioned⟩

theorem baseVersion_eq {newest : Option Text} (h : newestVersion? sorting releases = .ok newest) :
    baseVersion sorting project releases = newest.getD project.version := by
  rw [baseVersion, h]
  cases newest <;> rfl

/-- The first version that can be read among those of sorted releases comes before all others. -/
theorem of_newestVersion? (versioned : Release.IsVersioned releases) (h : newestVersion? sorting releases = .ok (some newest)) :
    isValid newest ∧ (∃ r ∈ releases, r.version = some newest) ∧
      ∀ s ∈ releases, ∀ w ∈ s.version, isValid w → (newestFirst newest w).isLE := by
  rw [newestVersion?_eq_ok versioned] at h
  obtain ⟨valid, before, after, hsplit, invalid⟩ := List.find?_eq_some_iff_append.mp (Except.ok.inj h)
  have sorted := versioned.pairwise_stableSort
  rw [hsplit] at sorted
  have listed : ∀ s ∈ releases, ∀ w ∈ s.version, w ∈ before ++ newest :: after := by
    intro s hs w hw
    rw [← hsplit]
    exact List.mem_filterMap.mpr ⟨s, mem_stableSort.mpr hs, hw⟩
  refine ⟨valid, ?_, fun s hs w hw validW => ?_⟩
  · have hnewest : newest ∈ before ++ newest :: after := List.mem_append_right before List.mem_cons_self
    rw [← hsplit] at hnewest
    obtain ⟨r, hr, hversion⟩ := List.mem_filterMap.mp hnewest
    exact ⟨r, mem_stableSort.mp hr, hversion⟩
  · rcases List.mem_append.mp (listed s hs w hw) with hw | hw
    · have := invalid w hw
      simp [validW] at this
    · rcases List.mem_cons.mp hw with rfl | hw
      · rw [newestFirst_self]
        rfl
      · exact (List.pairwise_cons.mp (List.pairwise_append.mp sorted).2.1).1 w hw

theorem isValid_eq_false_of_newestVersion? (versioned : Release.IsVersioned releases)
    (h : newestVersion? sorting releases = .ok none) : ∀ s ∈ releases, ∀ w ∈ s.version, isValid w = false := by
  rw [newestVersion?_eq_ok versioned] at h
  intro s hs w hw
  have := List.find?_eq_none.mp (Except.ok.inj h) w (List.mem_filterMap.mpr ⟨s, mem_stableSort.mpr hs, hw⟩)
  simpa using this

theorem isLE_baseVersion (versioned : Release.IsVersioned releases) :
    ∀ s ∈ releases, ∀ w ∈ s.version, isValid w → (newestFirst (baseVersion sorting project releases) w).isLE := by
  intro s hs w hw valid
  obtain ⟨newest, h⟩ := exists_newestVersion? versioned
  rw [baseVersion_eq h]
  cases newest with
  | none =>
      rw [isValid_eq_false_of_newestVersion? versioned h s hs w hw] at valid
      contradiction
  | some newest => exact (of_newestVersion? versioned h).2.2 s hs w hw valid

theorem isComparable_of_mem_version (versioned : Release.IsVersioned releases) (hr : r ∈ releases) (h : version ∈ r.version) :
    IsComparable version := by
  rw [← Release.version?_eq_version (versioned.named r hr)] at h
  exact versioned.comparable r hr version h

theorem isBase_baseVersion (versioned : Release.IsVersioned releases) (project : Project) :
    IsBase project releases (baseVersion sorting project releases) := by
  obtain ⟨newest, h⟩ := exists_newestVersion? versioned
  rw [baseVersion_eq h]
  cases newest with
  | none => exact .current (isValid_eq_false_of_newestVersion? versioned h)
  | some newest =>
      obtain ⟨valid, ⟨r, hr, hversion⟩, first⟩ := of_newestVersion? versioned h
      show IsBase project releases newest
      refine .newest hr hversion valid fun s hs w hw => ?_
      rw [isNewer_of_isComparable (isComparable_of_mem_version versioned hs hw)
        (isComparable_of_mem_version versioned hr hversion)]
      cases validW : isValid w with
      | false => rfl
      | true =>
          have hle := first s hs w hw validW
          rw [newestFirst_swap] at hle
          cases order : newestFirst w newest with
          | lt =>
              rw [order] at hle
              contradiction
          | eq | gt => simp

/-! ## The release that is added -/

/-- A release next to others that it is newer than: sorted with them, it comes before all that have a version that can be
    read. -/
structure IsNewest (sorting : Sorting) (releases : List Release) (version : Text) (r : Release) (sorted : List Release) : Prop where
  said : r.version = some version
  valid : isValid version
  newer : ∀ s ∈ releases, ∀ w ∈ s.version, isValid w → isNewer version w = .ok true
  result : sorting.sort (releases ++ [r]) = .ok sorted
  first : ∃ before after, sorted = before ++ r :: after ∧ (before ++ after).Perm releases ∧
    ∀ s ∈ before, ∀ w ∈ s.version, isValid w = false

theorem isComparable_of_candidateNumber? (h : candidateNumber? version = none) : IsComparable version := fun _ => by
  rw [hasLongCandidate, h]
  rfl

/-- A bump of the newest version is newer than all. -/
theorem newestFirst_of_bump_baseVersion (versioned : Release.IsVersioned releases)
    (bumped : bumpText (baseVersion sorting project releases) keyword = .ok version) :
    ∀ s ∈ releases, ∀ w ∈ s.version, isValid w → newestFirst version w = .lt := by
  intro s hs w hw valid
  have newer := (newestFirst_of_bumpText bumped).2.2.2
  exact Std.TransCmp.lt_of_lt_of_isLE newer (isLE_baseVersion versioned s hs w hw valid)

theorem isNewest_of_newestFirst (versioned : Release.IsVersioned releases) (hversion : r.version? = some version)
    (valid : isValid version) (comparable : IsComparable version)
    (newer : ∀ s ∈ releases, ∀ w ∈ s.version, isValid w → newestFirst version w = .lt) :
    IsNewest sorting releases version r (stableSort Release.newestFirst (releases ++ [r])) where
  said := Option.eq_some_of_filter_eq_some hversion
  valid := valid
  newer s hs w hw validW := by
    rw [isNewer_of_isComparable comparable (isComparable_of_mem_version versioned hs hw), valid, validW,
      newer s hs w hw validW]
    rfl
  result := (versioned.concat hversion comparable).sort_eq_ok
  first := by
    have all := versioned.concat hversion comparable
    have sorted := isStableSort_stableSort (Release.isTransitiveOn_newestFirst all.named)
    have placed : r ∈ stableSort Release.newestFirst (releases ++ [r]) :=
      mem_stableSort.mpr (List.mem_append_right releases (List.mem_singleton_self r))
    obtain ⟨before, after, hsplit⟩ := List.append_of_mem placed
    have perm : (before ++ after).Perm releases := by
      have whole := sorted.perm
      rw [hsplit] at whole
      exact (List.perm_cons r).mp (List.perm_middle.symm.trans (whole.trans (List.perm_append_singleton r releases)))
    refine ⟨before, after, hsplit, perm, fun s hs w hw => ?_⟩
    have hs' : s ∈ releases := perm.mem_iff.mp (List.mem_append_left after hs)
    cases validW : isValid w with
    | false => rfl
    | true =>
        -- it would stand in front of what is newer
        have ordered := sorted.ordered
        rw [hsplit] at ordered
        have hle := (List.pairwise_append.mp ordered).2.2 s hs r List.mem_cons_self
        have named := (Release.version?_eq_version (versioned.named s hs')).trans hw
        simp only [Release.newestFirst, named, hversion] at hle
        rw [newestFirst_swap, newer s hs' w hw validW] at hle
        contradiction

/-! ## What a review adds -/

theorem saysUnreleased_of_bumpText (released : ReleaseHeading.saysUnreleased newest = false)
    (bumped : bumpText newest keyword = .ok version) : ReleaseHeading.saysUnreleased version = false := by
  obtain ⟨v, bump, hparse, -, -, -, rfl⟩ := of_bumpText bumped
  obtain ⟨-, rfl⟩ := parse?_eq_some_iff.mp hparse
  exact ReleaseHeading.saysUnreleased_bump bump released

theorem toReleaseHeading_datedHeading {today : Text} (date : isDate today) (valid : isValid version)
    (released : ReleaseHeading.saysUnreleased version = false) (index : Nat) :
    (Release.ofHeading index (datedHeading version today)).toReleaseHeading =
      { version := some version, date := some today, title := some (version ++ ReleaseHeading.dateSeparator ++ today),
        isParseable := true } := by
  have filled : ' ' ∉ version := fun space => absurd (forall_isVersionChar_of_isValid valid ' ' space) (by decide)
  have read := ReleaseHeading.ofNodes_dated date released filled
  rw [← List.append_assoc] at read
  exact read

theorem version?_ofHeading_datedHeading {today : Text} (date : isDate today) (valid : isValid version)
    (released : ReleaseHeading.saysUnreleased version = false) (index : Nat) :
    (Release.ofHeading index (datedHeading version today)).version? = some version := by
  have ne : version.isEmpty = false := by simpa using ne_nil_of_isValid valid
  have said : (Release.ofHeading index (datedHeading version today)).version = some version :=
    congrArg ReleaseHeading.version (toReleaseHeading_datedHeading date valid released index)
  rw [Release.version?, said, Option.filter_some, ne]
  rfl

theorem requestedVersion_eq_bumpText (versioned : Release.IsVersioned releases) (isKeyword : (Bump.ofKeyword? keyword).isSome) :
    requestedVersion sorting project releases keyword = bumpText (baseVersion sorting project releases) keyword := by
  obtain ⟨bump, hbump⟩ := Option.isSome_iff_exists.mp isKeyword
  obtain ⟨newest, h⟩ := exists_newestVersion? versioned
  rw [requestedVersion, hbump, h, baseVersion_eq h]
  rfl

theorem addVersion_eq_ok {today : Text} (valid : isValid version) (new : ∀ r ∈ o.releases, r.version ≠ some version) :
    addVersion today version o = .ok (o.addRelease (datedHeading version today)) := by
  have unknown : (o.releases.any fun r => r.version = some version) = false := by simpa using new
  simp [addVersion, valid, unknown]

theorem addRequested_eq_ok {request : Text} (filled : request ≠ [])
    (requested : requestedVersion env.sorting project o.releases request = .ok version) (valid : isValid version)
    (new : ∀ r ∈ o.releases, r.version ≠ some version) :
    (addRequested env path project (some request) root o).outcome = .ok (o.addRelease (datedHeading version env.today)) ∧
      (addRequested env path project (some request) root o).diagnostics = [] := by
  have requested : (Action.ofExcept (requestedVersion env.sorting project o.releases request)).outcome = .ok version := requested
  have kept : (some request).filter (!·.isEmpty) = some request := by simpa using filled
  unfold addRequested
  rw [kept]
  refine ⟨?_, ?_⟩
  · rw [Action.outcome_bind requested, addVersion_eq_ok valid new]
    rfl
  · rw [Action.diagnostics_bind requested, addVersion_eq_ok valid new]
    rfl

/-- What is asked for adds nothing or one release, of a new version that can be read. -/
theorem of_addRequested {request : Option Text} {added : Outline}
    (h : (addRequested env path project request root o).outcome = .ok added) :
    added = o ∨ ∃ text version, request = some text ∧ requestedVersion env.sorting project o.releases text = .ok version ∧
      isValid version ∧ (∀ r ∈ o.releases, r.version ≠ some version) ∧ added = o.addRelease (datedHeading version env.today) := by
  unfold addRequested at h
  split at h
  next =>
    cases h
    exact .inl rfl
  next text asked =>
    obtain ⟨version, hversion, h⟩ := Action.outcome_bind_eq_ok.mp h
    unfold addVersion at h
    split at h
    next added' accepted =>
      split at accepted
      · contradiction
      next valid =>
        split at accepted
        · contradiction
        next unknown =>
          cases accepted
          cases h
          refine .inr ⟨text, version, Option.eq_some_of_filter_eq_some asked, hversion, by simpa using valid, ?_, rfl⟩
          simpa using unknown
    next =>
      cases h
      exact .inl rfl

theorem addRequested_bump (versioned : Release.IsVersioned o.releases) (isKeyword : (Bump.ofKeyword? keyword).isSome)
    (bumped : bumpText (baseVersion env.sorting project o.releases) keyword = .ok version) :
    (addRequested env path project (some keyword) root o).outcome = .ok (o.addRelease (datedHeading version env.today)) ∧
      (addRequested env path project (some keyword) root o).diagnostics = [] := by
  have filled : keyword ≠ [] := by
    rintro rfl
    exact absurd isKeyword (by decide)
  have valid := (newestFirst_of_bumpText bumped).2.1
  have new : ∀ r ∈ o.releases, r.version ≠ some version := by
    intro r hr same
    have order := newestFirst_of_bump_baseVersion versioned bumped r hr version same valid
    rw [newestFirst_self] at order
    contradiction
  exact addRequested_eq_ok filled ((requestedVersion_eq_bumpText versioned isKeyword).trans bumped) valid new

theorem arrange_bump (hadd : options.add = some keyword) (versioned : Release.IsVersioned o.releases)
    (isKeyword : (Bump.ofKeyword? keyword).isSome) (bumped : bumpText (baseVersion env.sorting project o.releases) keyword = .ok version)
    {r : Release} (hr : r = Release.ofHeading o.releases.length (datedHeading version env.today)) {sorted : List Release}
    (hsorted : env.sorting.sort (o.releases ++ [r]) = .ok sorted) :
    (addRequested env path project options.add root o.setTitle).outcome =
        .ok { o.setTitle with releases := o.releases ++ [r] } ∧
      (arrange env path options project root o).outcome = .ok { o.setTitle with releases := sorted } ∧
      (arrange env path options project root o).diagnostics = [] := by
  have titled : o.setTitle.releases = o.releases := releases_setTitle o
  have added := @addRequested_bump env path root project o.setTitle keyword version (titled ▸ versioned) isKeyword
    (titled ▸ bumped)
  rw [Outline.addRelease, titled, ← hr, ← hadd] at added
  refine ⟨added.1, ?_⟩
  unfold arrange
  rw [Action.outcome_bind added.1, Action.diagnostics_bind added.1, added.2]
  dsimp only
  rw [hsorted]
  exact ⟨rfl, rfl⟩

theorem of_arrange (fix : options.fix) (silent : ∀ range, (fetch range).diagnostics = [])
    (harranged : (arrange env path options project root o).outcome = .ok arranged)
    (quiet : (arrange env path options project root o).diagnostics = []) :
    (∀ diagnostic ∈ (reviewOutline env path options project fetch root o).diagnostics, IsAgainst releaseRules diagnostic) ∧
      ∀ fixed, (reviewOutline env path options project fetch root o).outcome = .ok fixed →
        fixed.releases.map (·.version) = arranged.releases.map (·.version) := by
  refine ⟨fun diagnostic hdiagnostic => ?_, fun fixed hfixed => ?_⟩
  · unfold reviewOutline at hdiagnostic
    simp only [fix, if_true] at hdiagnostic
    rw [Action.diagnostics_bind harranged, quiet, List.nil_append] at hdiagnostic
    cases hreviewed : (reviewReleases env.schedule path true project fetch (Release.relate arranged.releases)).outcome with
    | error fault =>
        rw [Action.diagnostics_bind_of_error hreviewed] at hdiagnostic
        exact isAgainst_of_mem_reviewReleases silent hdiagnostic
    | ok reviewed =>
        rw [Action.diagnostics_bind hreviewed, link, Action.diagnostics_bind_eq_nil rfl fun _ => rfl, List.append_nil] at hdiagnostic
        exact isAgainst_of_mem_reviewReleases silent hdiagnostic
  · exact map_version_fixed fix harranged hfixed

/-- A review of a document adds a version as the newest release: it takes it from the latest version there is, remarks on
    nothing in the request, and adds one release, which stays the newest one until the end. -/
structure AddsNewest (env : Environment) (path : Option Path) (options : Options) (root : Node) (project : Project)
    (version : Text) (o : Outline) : Prop where
  base : IsBase project o.releases (baseVersion env.sorting project o.releases)
  unremarked : ∀ diagnostic ∈ (run env path options root).diagnostics, diagnostic.rule ≠ Rule.addNewRelease.name
  added : ∃ r sorted, IsNewest env.sorting o.releases version r sorted ∧
    (addRequested env path project options.add root o.setTitle).outcome =
      .ok { o.setTitle with releases := o.releases ++ [r] } ∧
    (arrange env path options project root o).outcome = .ok { o.setTitle with releases := sorted } ∧
    ∀ blocks, (run env path options root).outcome = .ok blocks → ∃ fixed,
      (reviewOutline env path options project (fetchOf env path options) root o).outcome = .ok fixed ∧
        blocks = some fixed.nodes ∧ fixed.releases.map (·.version) = sorted.map (·.version)

/-- A review that is asked for a bump adds the newest release, if the version that is bumped does not speak of what is
    not released yet. -/
theorem run_adds_newest (fix : options.fix) (hadd : options.add = some keyword)
    (isKeyword : (Bump.ofKeyword? keyword).isSome) (hpath : isReviewed path) (hroot : root.kind = .root)
    (hproject : (projectOf env path options).outcome = .ok project)
    (date : isDate env.today) (versioned : Release.IsVersioned (Outline.ofNodes root.children).releases)
    (released : ReleaseHeading.saysUnreleased (baseVersion env.sorting project (Outline.ofNodes root.children).releases) = false)
    (bumped : bumpText (baseVersion env.sorting project (Outline.ofNodes root.children).releases) keyword = .ok version) :
    AddsNewest env path options root project version (Outline.ofNodes root.children) := by
  let o := Outline.ofNodes root.children
  obtain ⟨-, valid, unsplit, -⟩ := newestFirst_of_bumpText bumped
  let r := Release.ofHeading o.releases.length (datedHeading version env.today)
  have said : r.version? = some version :=
    version?_ofHeading_datedHeading date valid (saysUnreleased_of_bumpText released bumped) _
  have newest : IsNewest env.sorting o.releases version r (stableSort Release.newestFirst (o.releases ++ [r])) :=
    isNewest_of_newestFirst versioned said valid (isComparable_of_candidateNumber? unsplit)
      (newestFirst_of_bump_baseVersion versioned bumped)
  obtain ⟨added, arranged, quiet⟩ := @arrange_bump env path options root project o keyword version hadd versioned isKeyword
    bumped r rfl _ newest.result
  obtain ⟨against, versions⟩ := of_arrange fix (diagnostics_fetchOf env path options) arranged quiet
  refine ⟨isBase_baseVersion versioned project, fun diagnostic hdiagnostic => ?_, r, _, newest, added, arranged,
    fun blocks hblocks => ?_⟩
  · rw [diagnostics_run hpath hroot hproject] at hdiagnostic
    exact (against diagnostic hdiagnostic).rule_ne (by decide)
  · obtain ⟨-, project', fixed, hproject', hfixed, hnodes⟩ := exists_fixed_of_run fix hpath hblocks
    obtain rfl : project = project' := Except.ok.inj (hproject.symm.trans hproject')
    exact ⟨fixed, hfixed, hnodes, versions fixed hfixed⟩

/-! ### Bumps of documents -/

section

open Text (ofString)

def bumpOptions (keyword : Text) : Options := { sampleOptions with add := some keyword }

theorem run_adds_newest_sample : (bumpOptions (ofString "minor")).fix ∧
    (bumpOptions (ofString "minor")).add = some (ofString "minor") ∧ (Bump.ofKeyword? (ofString "minor")).isSome ∧
    isReviewed none ∧ sampleRoot.kind = .root ∧
    (projectOf sampleEnvironment none (bumpOptions (ofString "minor"))).outcome = .ok sampleProject ∧
    isDate sampleEnvironment.today ∧ Release.IsVersioned (Outline.ofNodes sampleRoot.children).releases ∧
    baseVersion .merging sampleProject (Outline.ofNodes sampleRoot.children).releases = ofString "1.1.0" ∧
    ReleaseHeading.saysUnreleased (ofString "1.1.0") = false ∧
    bumpText (ofString "1.1.0") (ofString "minor") = .ok (ofString "1.2.0") ∧
    AddsNewest sampleEnvironment none (bumpOptions (ofString "minor")) sampleRoot sampleProject (ofString "1.2.0")
      (Outline.ofNodes sampleRoot.children) := by
  have versioned : Release.IsVersioned (Outline.ofNodes sampleRoot.children).releases :=
    Release.isVersioned_of_short (by decide +kernel) (by decide +kernel)
  have sorted : stableSort Release.newestFirst (Outline.ofNodes sampleRoot.children).releases =
      (Outline.ofNodes sampleRoot.children).releases.reverse := (stableSort_pair _ _).trans (if_pos (by decide +kernel))
  have newest : newestVersion? .merging (Outline.ofNodes sampleRoot.children).releases = .ok (some (ofString "1.1.0")) := by
    rw [newestVersion?_eq_ok versioned, sorted]
    decide +kernel
  have base : baseVersion .merging sampleProject (Outline.ofNodes sampleRoot.children).releases = ofString "1.1.0" := baseVersion_eq newest
  have found : (projectOf sampleEnvironment none (bumpOptions (ofString "minor"))).outcome = .ok sampleProject := by decide +kernel
  have released : ReleaseHeading.saysUnreleased (ofString "1.1.0") = false := by decide +kernel
  have bumped : bumpText (ofString "1.1.0") (ofString "minor") = .ok (ofString "1.2.0") := by decide +kernel
  exact ⟨rfl, rfl, by decide, rfl, rfl, found, by decide, versioned, base, released, bumped,
    run_adds_newest rfl rfl (by decide) rfl rfl found (by decide) versioned (base ▸ released) (base ▸ bumped)⟩

/-- A release of a version that speaks of what is not released yet, though not in small letters. -/
def unsettledRoot : Node :=
  { kind := .root
    children := [Node.heading 2 [
      { kind := .link, url := some (ofString "a"), children := [Node.ofText (ofString "1.0.0-Unreleased.1")] },
      Node.ofText (ofString " - 2024-01-01")]] }

/-- A bump may not add the newest release: the heading of the bumped version may read as what is not released yet. A
    review that does not look into the document, or that does not know the project, adds nothing at all. -/
theorem addition_not_newest :
    let options := bumpOptions (ofString "prerelease")
    let o := Outline.ofNodes unsettledRoot.children
    let base := ofString "1.0.0-Unreleased.1"
    (Release.IsVersioned o.releases ∧ baseVersion .merging sampleProject o.releases = base ∧ ¬unreleased <:+: base ∧
      bumpText base (ofString "prerelease") = .ok (ofString "1.0.0-Unreleased.2") ∧
      ((addRequested sampleEnvironment none sampleProject options.add unsettledRoot o.setTitle).outcome.map fun added =>
        added.releases.map (·.version)) = .ok [some base, some unreleased] ∧ isValid unreleased = false) ∧
    (run sampleEnvironment (some (Path.ofText (ofString "HISTORY.md"))) (bumpOptions (ofString "minor")) sampleRoot).outcome =
      .ok none ∧
    (run sampleEnvironment none { bumpOptions (ofString "minor") with version := some (ofString "1.0") } sampleRoot).outcome =
      .error (.setup .versionMissing) := by
  refine ⟨⟨Release.isVersioned_of_short (by decide +kernel) (by decide +kernel), ?_, ?_, ?_, ?_, ?_⟩, ?_, ?_⟩
  all_goals decide +kernel

end

end Review

end Changelog
