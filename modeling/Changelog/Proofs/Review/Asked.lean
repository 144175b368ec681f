import Changelog.Proofs.Review.Addition

/-! # What git is asked about releases

A review that fixes a document asks for the commits of an empty release in one range only. It is known from the release
and the project, so that it can be told up to where the commits of an added release are asked for.
-/

namespace Changelog

namespace Version

theorem tag_ne_nil_of_isValid {version : Text} (h : isValid version) (tags : List Text) : tag version tags ≠ [] := by
  rw [tag, dropLead?_of_isValid h (by decide), Option.getD_none]
  split
  · exact List.cons_ne_nil 'v' version
  · split
    · exact ne_nil_of_isValid h
    · exact List.cons_ne_nil 'v' version

end Version

namespace Review

open Version

variable {env : Environment} {path : Option Path} {options : Options} {root : Node} {project : Project} {fetch : Fetch}
  {sorting : Sorting} {schedule : List Nat} {o arranged : Outline} {r s : Release} {releases : List Release}
  {seen : List Text} {range : Range}
  {keyword version previous : Text}

/-! ## The range of a release -/

/-- The range in which the commits of a release are asked for when it is fixed, if they are. -/
def askedFor (project : Project) (r : Release) : Option Range :=
  if isReadable r then
    (fillable? true r).bind fun (version, previous) => ((gapOf project version previous).toOption.map Gap.range)
  else none

theorem askedFor_eq_some_iff : askedFor project r = some range ↔ isReadable r ∧ ∃ version previous gap,
    fillable? true r = some (version, previous) ∧ gapOf project version previous = .ok gap ∧ range = gap.range := by
  unfold askedFor
  cases isReadable r with
  | false => simp
  | true =>
      cases fillable? true r with
      | none => simp
      | some pair =>
          obtain ⟨version, previous⟩ := pair
          cases hgap : gapOf project version previous with
          | error fault => simp [hgap, Except.toOption]
          | ok gap => simp [hgap, Except.toOption, eq_comm]

theorem sublist_events_reviewRelease (h : askedFor project r = some range) :
    (fetch range).events.Sublist (reviewRelease path true project fetch seen r).events := by
  obtain ⟨readable, version, previous, gap, hfillable, hgap, rfl⟩ := askedFor_eq_some_iff.mp h
  have empty : r.isEmpty := (isEmpty_of_fillable? hfillable).2
  have asked : (fetch gap.range).events.Sublist (fillFrom project fetch r version previous).events := by
    have found : (Action.ofExcept (gapOf project version previous)).outcome = .ok gap := hgap
    refine .trans ?_ (Action.sublist_events_bind_of_outcome found)
    refine .trans ?_ (Action.sublist_events_bind_of_outcome (Action.outcome_log _ _ _))
    refine .trans ?_ (Action.sublist_events_bind _ _)
    rw [Action.events_attemptGit]
    exact List.sublist_cons_self _ _
  have filled : backfill true project fetch r = fillFrom project fetch r version previous := by
    simp only [backfill, empty, hfillable, Bool.not_true, Bool.false_eq_true, if_false]
  unfold reviewRelease
  refine .trans ?_ (Action.sublist_events_bind_of_outcome (outcome_remark _))
  simp only [readable, Bool.not_true, Bool.false_eq_true, if_false]
  refine .trans ?_ (Action.sublist_events_bind _ _)
  rw [filled]
  exact asked

/-- Whatever the schedule, each release that is to be filled asks for the commits in its range. -/
theorem sublist_events_reviewReleases (hr : r ∈ releases) (h : askedFor project r = some range) :
    (fetch range).events.Sublist (reviewReleases schedule path true project fetch releases).events := by
  obtain ⟨seen, hx⟩ : ∃ seen', reviewRelease path true project fetch seen' r ∈ reviews path true project fetch [] releases :=
    exists_mem_reviews hr
  exact (sublist_events_reviewRelease h).trans (Action.sublist_events_gather hx)

theorem sublist_events_reviewOutline (fix : options.fix)
    (harranged : (arrange env path options project root o).outcome = .ok arranged)
    (hr : r ∈ Release.relate arranged.releases) (h : askedFor project r = some range) :
    (fetch range).events.Sublist (reviewOutline env path options project fetch root o).events := by
  unfold reviewOutline
  simp only [fix, if_true]
  refine .trans ?_ (Action.sublist_events_bind_of_outcome harranged)
  refine .trans ?_ (Action.sublist_events_bind _ _)
  exact sublist_events_reviewReleases hr h

/-- A review of a document asks git for the commits of its releases. -/
theorem sublist_events_run (fix : options.fix) (hpath : isReviewed path) (hroot : root.kind = .root)
    (hproject : (projectOf env path options).outcome = .ok project)
    (harranged : (arrange env path options project root (Outline.ofNodes root.children)).outcome = .ok arranged)
    (hr : r ∈ Release.relate arranged.releases) (h : askedFor project r = some range) :
    (fetchOf env path options range).events.Sublist (run env path options root).events := by
  obtain ⟨directory, hdirectory⟩ := exists_projectDirectory hproject
  rw [run_eq hpath hroot hdirectory]
  refine .trans ?_ (Action.sublist_events_bind_of_outcome (projectOf_eq hdirectory ▸ hproject))
  refine .trans ?_ (Action.sublist_events_bind_of_outcome (Action.outcome_log _ _ _))
  refine .trans ?_ (Action.sublist_events_bind _ _)
  exact sublist_events_reviewOutline fix harranged hr h

/-! ## How far the range goes -/

def head : Bound := ⟨Text.ofString "HEAD", true⟩

theorem upper_range_of_some {gap : Gap} {before : Text} (h : gap.before = some before) (filled : before ≠ []) :
    gap.range.upper = ⟨before, false⟩ := by
  obtain ⟨c, rest, rfl⟩ := List.exists_cons_of_ne_nil filled
  rw [Gap.range, h]
  rfl

theorem upper_range_of_none {gap : Gap} (h : gap.before = none) : gap.range.upper = head := by
  rw [Gap.range, h]
  rfl

theorem version_of_fillable? {fix : Bool} (h : fillable? fix r = some (version, previous)) : r.version = some version :=
  (fillable?_eq_some_iff.mp h).2.1.1

theorem exists_gapOf_of_askedFor (h : askedFor project r = some range) (hversion : r.version = some version) :
    ∃ previous gap, gapOf project version previous = .ok gap ∧ range = gap.range := by
  obtain ⟨-, version', previous, gap, hfillable, hgap, hrange⟩ := askedFor_eq_some_iff.mp h
  obtain rfl : version' = version := Option.some.inj ((version_of_fillable? hfillable).symm.trans hversion)
  exact ⟨previous, gap, hgap, hrange⟩

theorem gapOf_unreleased (project : Project) (previous : Text) :
    gapOf project unreleased previous = .ok ⟨tag previous project.tags, none⟩ := rfl

theorem upper_of_unreleased (h : askedFor project r = some range) (hversion : r.version = some unreleased) :
    range.upper = head := by
  obtain ⟨previous, gap, hgap, rfl⟩ := exists_gapOf_of_askedFor h hversion
  rw [gapOf_unreleased] at hgap
  cases hgap
  exact upper_range_of_none rfl

/-- A version reaches up to the head if it is newer than the current one, and else up to its own tag. -/
theorem upper_of_isValid (h : askedFor project r = some range) (hversion : r.version = some version) (valid : isValid version) :
    ∃ newer, isNewer version project.version = .ok newer ∧
      range.upper = if newer then head else ⟨tag version project.tags, false⟩ := by
  obtain ⟨previous, gap, hgap, rfl⟩ := exists_gapOf_of_askedFor h hversion
  unfold gapOf at hgap
  rw [if_neg (ne_unreleased_of_isValid valid)] at hgap
  cases hnewer : isNewer version project.version with
  | error fault => simp [hnewer, bind, Except.bind] at hgap
  | ok newer =>
      rw [hnewer] at hgap
      cases hgap
      refine ⟨newer, rfl, ?_⟩
      cases newer with
      | false => exact upper_range_of_some rfl (tag_ne_nil_of_isValid valid project.tags)
      | true => exact upper_range_of_none rfl

/-! ## An added release -/

theorem version_ofHeading_datedHeading {today : Text} (date : isDate today) (valid : isValid version) (index : Nat) :
    (Release.ofHeading index (datedHeading version today)).version =
      some (if ReleaseHeading.saysUnreleased version then unreleased else version) := by
  cases released : ReleaseHeading.saysUnreleased version with
  | false => exact congrArg ReleaseHeading.version (toReleaseHeading_datedHeading date valid released index)
  | true =>
      have speaks : ReleaseHeading.saysUnreleased (version ++ ReleaseHeading.dateSeparator ++ today) := by
        refine ReleaseHeading.saysUnreleased_of_infix ?_ released
        rw [List.append_assoc]
        exact (List.prefix_append version _).isInfix
      show (ReleaseHeading.ofPlain (version ++ ReleaseHeading.dateSeparator ++ today)).version = _
      rw [ReleaseHeading.ofPlain, if_pos speaks]
      rfl

theorem exists_of_index_added
    (harranged : (arrange env path options project root (Outline.ofNodes root.children)).outcome = .ok arranged)
    (hs : s ∈ Release.relate arranged.releases) (hindex : s.index = (Outline.ofNodes root.children).releases.length) :
    ∃ request version, options.add = some request ∧
      requestedVersion env.sorting project (Outline.ofNodes root.children).releases request = .ok version ∧ isValid version ∧
      s.version = (Release.ofHeading s.index (datedHeading version env.today)).version := by
  let o := Outline.ofNodes root.children
  obtain ⟨added, sorted, hadded, hsorted, rfl⟩ := outcome_arrange_eq_ok.mp harranged
  obtain ⟨r, hr, previous, rfl⟩ := Release.exists_of_mem_relate hs
  have hmem : r ∈ added.releases := (env.sorting.perm hsorted).mem_iff.mp hr
  -- the releases of the document are counted from zero, so that none of them has this index
  have known : r ∉ o.releases := fun h => Nat.lt_irrefl _ (hindex ▸ index_lt_of_mem_ofNodes h)
  rcases of_addRequested hadded with rfl | ⟨request, version, hadd, hversion, valid, -, rfl⟩
  · rw [releases_setTitle] at hmem
    contradiction
  · rw [releases_setTitle] at hversion
    rw [Outline.addRelease, releases_setTitle, List.mem_append, List.mem_singleton] at hmem
    obtain rfl := hmem.resolve_left known
    exact ⟨request, version, hadd, hversion, valid, rfl⟩

theorem exists_of_requestedVersion (isKeyword : (Bump.ofKeyword? keyword).isSome)
    (h : requestedVersion sorting project releases keyword = .ok version) :
    ∃ newest, newestVersion? sorting releases = .ok newest ∧ bumpText (newest.getD project.version) keyword = .ok version := by
  obtain ⟨bump, hbump⟩ := Option.isSome_iff_exists.mp isKeyword
  rw [requestedVersion, hbump] at h
  cases hnewest : newestVersion? sorting releases with
  | error fault => simp [hnewest, bind, Except.bind] at h
  | ok newest =>
      rw [hnewest] at h
      exact ⟨newest, rfl, h⟩

/-- The commits of a release that a bump adds are asked for up to the head if the new version is newer than the current one,
    as it is if no release that can be read is behind the current version. If it is not newer, they are asked for up to a
    tag of the new version. -/
theorem upper_of_added_bump (fix : options.fix) (hadd : options.add = some keyword)
    (isKeyword : (Bump.ofKeyword? keyword).isSome) (hpath : isReviewed path) (hroot : root.kind = .root)
    (hproject : (projectOf env path options).outcome = .ok project)
    (date : isDate env.today)
    (harranged : (arrange env path options project root (Outline.ofNodes root.children)).outcome = .ok arranged)
    (hs : s ∈ Release.relate arranged.releases) (hindex : s.index = (Outline.ofNodes root.children).releases.length)
    (asked : askedFor project s = some range) :
    ∃ newest version, newestVersion? env.sorting (Outline.ofNodes root.children).releases = .ok newest ∧
      bumpText (newest.getD project.version) keyword = .ok version ∧
      (fetchOf env path options range).events.Sublist (run env path options root).events ∧
      range.upper = (if ReleaseHeading.saysUnreleased version ∨ isNewer version project.version = .ok true then head
        else ⟨tag version project.tags, false⟩) ∧
      ((newestFirst (newest.getD project.version) project.version).isLE → range.upper = head) := by
  obtain ⟨request, version, hadd', hversion, valid, said⟩ := exists_of_index_added harranged hs hindex
  obtain rfl : keyword = request := Option.some.inj (hadd.symm.trans hadd')
  obtain ⟨newest, hnewest, bumped⟩ := exists_of_requestedVersion isKeyword hversion
  rw [version_ofHeading_datedHeading date valid] at said
  refine ⟨newest, version, hnewest, bumped, sublist_events_run fix hpath hroot hproject harranged hs asked, ?_⟩
  cases released : ReleaseHeading.saysUnreleased version with
  | true =>
      have upper := upper_of_unreleased asked (by rw [said, released, if_pos rfl])
      rw [if_pos (.inl rfl)]
      exact ⟨upper, fun _ => upper⟩
  | false =>
      obtain ⟨newer, hnewer, upper⟩ := upper_of_isValid asked (by rw [said, released]; rfl) valid
      rw [hnewer, upper]
      refine ⟨by cases newer <;> rfl, fun known => ?_⟩
      have ahead : newestFirst version project.version = .lt :=
        Std.TransCmp.lt_of_lt_of_isLE (newestFirst_of_bumpText bumped).2.2.2 known
      rw [eq_of_isNewer hnewer, valid, isValid_of_projectOf hproject, ahead]
      rfl

/-! ### A bump to the current version -/

section

open Text (ofString)

def releasedRoot : Node :=
  { kind := .root
    children := [Node.heading 2 [Node.ofText (ofString "1.0.0 - 2024-01-01")], Node.paragraph [Node.ofText (ofString "First.")]] }

def releasedTags : List Text := [ofString "v0.1.0", ofString "v1.0.0"]

def releasedOptions (current : Text) : Options :=
  { bumpOptions (ofString "minor") with version := some current, tags := some releasedTags }

def releasedProject (current : Text) : Project := ⟨releasedTags, ofString "https://github.com/a/b", current⟩

def bumpedRelease : Release :=
  { Release.ofHeading 1 (datedHeading (ofString "1.1.0") sampleEnvironment.today) with previous := some (ofString "1.0.0") }

def bumpedOutline : Outline :=
  let o := Outline.ofNodes releasedRoot.children
  { o.setTitle with
    releases := Release.ofHeading 1 (datedHeading (ofString "1.1.0") sampleEnvironment.today) :: o.releases }

theorem outcome_arrange_released (project : Project) (current : Text) :
    (arrange sampleEnvironment none (releasedOptions current) project releasedRoot
      (Outline.ofNodes releasedRoot.children)).outcome = .ok bumpedOutline := by
  let o := (Outline.ofNodes releasedRoot.children).setTitle
  have versioned : Release.IsVersioned o.releases := Release.isVersioned_of_short (by decide +kernel) (by decide +kernel)
  have single : stableSort Release.newestFirst o.releases = o.releases :=
    stableSort_of_pairwise (List.pairwise_singleton _ _)
  have newest : newestVersion? .merging o.releases = .ok (some (ofString "1.0.0")) := by
    rw [newestVersion?_eq_ok versioned, single]
    decide +kernel
  have bumped : bumpText (baseVersion .merging project o.releases) (ofString "minor") = .ok (ofString "1.1.0") := by
    rw [baseVersion_eq newest, Option.getD_some]
    decide +kernel
  have added := (@addRequested_bump sampleEnvironment none releasedRoot project o _ _ versioned (by decide) bumped).1
  have inFront : stableSort Release.newestFirst (bumpedOutline.releases.reverse) = bumpedOutline.releases :=
    (stableSort_pair _ _).trans (if_pos (by decide +kernel))
  have sorted : Sorting.merging.sort bumpedOutline.releases.reverse = .ok bumpedOutline.releases := by
    rw [Sorting.sort_eq_ok (by decide +kernel) (Release.isTransitiveOn_newestFirst (by decide +kernel)), inFront]
  exact outcome_arrange_eq_ok.mpr ⟨_, bumpedOutline.releases, added, sorted, rfl⟩

/-- The current version is the one that is bumped. -/
theorem upper_of_added_bump_sample :
    let options := releasedOptions (ofString "1.0.0")
    let project := releasedProject (ofString "1.0.0")
    let o := Outline.ofNodes releasedRoot.children
    let range : Range := ⟨some ⟨ofString "v1.0.0", false⟩, head⟩
    options.fix ∧ options.add = some (ofString "minor") ∧ (Bump.ofKeyword? (ofString "minor")).isSome ∧ isReviewed none ∧
      releasedRoot.kind = .root ∧
      (projectOf sampleEnvironment none options).outcome = .ok project ∧ isDate sampleEnvironment.today ∧
      (arrange sampleEnvironment none options project releasedRoot o).outcome = .ok bumpedOutline ∧
      bumpedRelease ∈ Release.relate bumpedOutline.releases ∧ bumpedRelease.index = o.releases.length ∧
      askedFor project bumpedRelease = some range ∧
      ∃ newest version, newestVersion? .merging o.releases = .ok newest ∧
        bumpText (newest.getD project.version) (ofString "minor") = .ok version ∧
        (fetchOf sampleEnvironment none options range).events.Sublist (run sampleEnvironment none options releasedRoot).events ∧
        range.upper = (if ReleaseHeading.saysUnreleased version ∨ isNewer version project.version = .ok true then head
          else ⟨tag version project.tags, false⟩) ∧
        ((newestFirst (newest.getD project.version) project.version).isLE → range.upper = head) := by
  intro options project o range
  have found : (projectOf sampleEnvironment none options).outcome = .ok project := by decide +kernel
  have arranged := outcome_arrange_released project (ofString "1.0.0")
  have hs : bumpedRelease ∈ Release.relate bumpedOutline.releases := List.mem_cons_self
  have asked : askedFor project bumpedRelease = some range := by decide +kernel
  exact ⟨rfl, rfl, by decide, rfl, rfl, found, by decide, arranged, hs, rfl, asked,
    upper_of_added_bump rfl rfl (by decide) rfl rfl found (by decide) arranged hs rfl asked⟩

/-- The current version may be the one that a bump comes to. The commits are asked for up to its tag then, and there is no
    such tag. -/
theorem added_bump_up_to_missing_tag :
    let options := releasedOptions (ofString "1.1.0")
    let project := releasedProject (ofString "1.1.0")
    let o := Outline.ofNodes releasedRoot.children
    let range : Range := ⟨some ⟨ofString "v1.0.0", false⟩, ⟨ofString "v1.1.0", false⟩⟩
    (projectOf sampleEnvironment none options).outcome = .ok project ∧
      (arrange sampleEnvironment none options project releasedRoot o).outcome = .ok bumpedOutline ∧
      bumpedRelease ∈ Release.relate bumpedOutline.releases ∧ bumpedRelease.index = o.releases.length ∧
      askedFor project bumpedRelease = some range ∧
      (fetchOf sampleEnvironment none options range).events.Sublist (run sampleEnvironment none options releasedRoot).events ∧
      range.upper ≠ head ∧ range.upper.ref ∉ project.tags := by
  intro options project o range
  have found : (projectOf sampleEnvironment none options).outcome = .ok project := by decide +kernel
  have arranged := outcome_arrange_released project (ofString "1.1.0")
  have hs : bumpedRelease ∈ Release.relate bumpedOutline.releases := List.mem_cons_self
  have asked : askedFor project bumpedRelease = some range := by decide +kernel
  exact ⟨found, arranged, hs, rfl, asked, sublist_events_run rfl rfl rfl found arranged hs asked, by decide +kernel,
    by decide +kernel⟩

end

end Review

end Changelog
