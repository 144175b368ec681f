import Changelog.Proofs.Review.Addition

/-! # A version that is asked for is added

A version can be asked for as it is, or by its tag. The heading that is written for it says this version and the day, as
long as the version does not speak of what is not released yet.
-/

namespace Changelog

namespace Bump

theorem ofKeyword?_cons {c : Char} (hm : c ≠ 'm') (hp : c ≠ 'p') (rest : Text) : ofKeyword? (c :: rest) = none := by
  refine List.find?_eq_none.mpr fun bump _ same => ?_
  have head : bump.keyword.head? = some c := by rw [of_decide_eq_true same, List.head?_cons]
  have first : bump.keyword.head? = some 'm' ∨ bump.keyword.head? = some 'p' := by
    cases bump <;> decide
  rcases first with first | first
  · exact hm (Option.some.inj (head.symm.trans first))
  · exact hp (Option.some.inj (head.symm.trans first))

theorem ofKeyword?_of_isValid {version : Text} (valid : Version.isValid version) : ofKeyword? version = none := by
  obtain ⟨c, rest, rfl, digit⟩ := Version.exists_cons_of_isValid valid
  refine ofKeyword?_cons ?_ ?_ rest <;> rintro rfl <;> exact absurd digit (by decide)

end Bump

namespace Review

open Version

variable {env : Environment} {path : Option Path} {options : Options} {root : Node} {project : Project}
  {sorting : Sorting} {o : Outline} {releases : List Release} {request version : Text}

theorem requestedVersion_of_isValid (valid : isValid version) (asked : request = version ∨ request = 'v' :: version) :
    requestedVersion sorting project releases request = .ok version := by
  rcases asked with rfl | rfl
  · rw [requestedVersion, Bump.ofKeyword?_of_isValid valid, dropLead?_of_isValid valid (by decide)]
  · rw [requestedVersion, Bump.ofKeyword?_cons (by decide) (by decide), Text.dropLead?_singleton]
    simp only [valid, if_true]

/-- A review adds a version: nothing in the request is remarked on, and the release that is added says this version and the
    day of today. It does so in the document that the review comes to as well. -/
structure AddsVersion (env : Environment) (path : Option Path) (options : Options) (root : Node) (project : Project)
    (version : Text) (o : Outline) : Prop where
  unremarked : (addRequested env path project options.add root o.setTitle).diagnostics = []
  added : ∃ r, (addRequested env path project options.add root o.setTitle).outcome =
      .ok { o.setTitle with releases := o.releases ++ [r] } ∧
    r.version = some version ∧ r.isParseable ∧ r.date = some env.today ∧ r.isUnreleased = false ∧
    ∀ blocks, (run env path options root).outcome = .ok blocks → ∃ fixed,
      (reviewOutline env path options project (fetchOf env path options) root o).outcome = .ok fixed ∧
        blocks = some fixed.nodes ∧ ∃ s ∈ fixed.releases, s.toReleaseHeading = r.toReleaseHeading

/-- A review that is asked for a version no release has adds a release of this version, unless it speaks of what is not
    released yet. -/
theorem run_adds_version (fix : options.fix) (hadd : options.add = some request)
    (asked : request = version ∨ request = 'v' :: version) (valid : isValid version) (hpath : isReviewed path)
    (hproject : (projectOf env path options).outcome = .ok project)
    (date : isDate env.today) (new : ∀ r ∈ (Outline.ofNodes root.children).releases, r.version ≠ some version)
    (released : ReleaseHeading.saysUnreleased version = false) :
    AddsVersion env path options root project version (Outline.ofNodes root.children) := by
  let o := Outline.ofNodes root.children
  let r := Release.ofHeading o.releases.length (datedHeading version env.today)
  have said := toReleaseHeading_datedHeading date valid released o.releases.length
  have hversion : r.version = some version := congrArg ReleaseHeading.version said
  have filled : request ≠ [] := by
    rcases asked with rfl | rfl
    · exact ne_nil_of_isValid valid
    · exact List.cons_ne_nil 'v' version
  obtain ⟨added, quiet⟩ := @addRequested_eq_ok env path root project o.setTitle version request filled
    (requestedVersion_of_isValid valid asked) valid (releases_setTitle o ▸ new)
  rw [Outline.addRelease, releases_setTitle] at added
  rw [← hadd] at added quiet
  refine ⟨quiet, r, added, hversion, congrArg ReleaseHeading.isParseable said, congrArg ReleaseHeading.date said, ?_,
    fun blocks hblocks => ?_⟩
  · rw [Release.isUnreleased, hversion]
    simpa using ne_unreleased_of_isValid valid
  · obtain ⟨fixed, hfixed, hnodes⟩ := exists_fixed_of_findProject fix hpath hproject hblocks
    obtain ⟨arranged, -, -, harranged, -⟩ := (outcome_reviewOutline_eq_ok fix).mp hfixed
    obtain ⟨_, sorted, hadded, hsorted, rfl⟩ := outcome_arrange_eq_ok.mp harranged
    obtain rfl := Except.ok.inj (added.symm.trans hadded)
    -- sorting keeps the release, and nothing after that changes what its heading says
    have placed : r ∈ sorted := by
      refine (env.sorting.perm hsorted).mem_iff.mpr ?_
      exact List.mem_append_right o.releases (List.mem_singleton_self r)
    have kept : r.toReleaseHeading ∈ fixed.releases.map (·.toReleaseHeading) := by
      rw [map_toReleaseHeading_fixed fix harranged hfixed]
      exact List.mem_map_of_mem placed
    exact ⟨fixed, hfixed, hnodes, List.mem_map.mp kept⟩

/-! ### Versions that are asked for -/

section

open Text (ofString)

def versionOptions (request : Text) : Options := { sampleOptions with add := some request }

theorem run_adds_version_sample : (versionOptions (ofString "v1.1.0-rc.1+linux")).fix ∧
    (versionOptions (ofString "v1.1.0-rc.1+linux")).add = some (ofString "v1.1.0-rc.1+linux") ∧
    (ofString "v1.1.0-rc.1+linux" = ofString "1.1.0-rc.1+linux" ∨
      ofString "v1.1.0-rc.1+linux" = 'v' :: ofString "1.1.0-rc.1+linux") ∧
    isValid (ofString "1.1.0-rc.1+linux") ∧ isReviewed none ∧
    (projectOf sampleEnvironment none (versionOptions (ofString "v1.1.0-rc.1+linux"))).outcome = .ok sampleProject ∧
    isDate sampleEnvironment.today ∧
    (∀ r ∈ (Outline.ofNodes sampleRoot.children).releases, r.version ≠ some (ofString "1.1.0-rc.1+linux")) ∧
    ReleaseHeading.saysUnreleased (ofString "1.1.0-rc.1+linux") = false ∧
    AddsVersion sampleEnvironment none (versionOptions (ofString "v1.1.0-rc.1+linux")) sampleRoot sampleProject
      (ofString "1.1.0-rc.1+linux") (Outline.ofNodes sampleRoot.children) := by
  have valid : isValid (ofString "1.1.0-rc.1+linux") := by decide +kernel
  have found : (projectOf sampleEnvironment none (versionOptions (ofString "v1.1.0-rc.1+linux"))).outcome = .ok sampleProject := by
    decide +kernel
  have date : isDate sampleEnvironment.today := by decide
  have new : ∀ r ∈ (Outline.ofNodes sampleRoot.children).releases, r.version ≠ some (ofString "1.1.0-rc.1+linux") := by
    decide +kernel
  have released : ReleaseHeading.saysUnreleased (ofString "1.1.0-rc.1+linux") = false := by decide +kernel
  exact ⟨rfl, rfl, .inr rfl, valid, rfl, found, date, new, released,
    run_adds_version rfl rfl (.inr rfl) valid rfl found date new released⟩

/-- The heading of a version that speaks of what is not released yet reads as just that, whatever else the version says. -/
theorem added_version_unreleased :
    let version := ofString "2.0.0-unreleased"
    let o := Outline.ofNodes sampleRoot.children
    isValid version ∧ (∀ r ∈ o.releases, r.version ≠ some version) ∧
      ((addRequested sampleEnvironment none sampleProject (versionOptions version).add sampleRoot o.setTitle).outcome.map
        fun added => added.releases.map fun r => (r.version, r.date, r.isUnreleased)) =
          .ok [(some (ofString "1.0.0"), some (ofString "2024-01-01"), false),
            (some (ofString "1.1.0"), some (ofString "2024-02-02"), false), (some unreleased, none, true)] := by
  decide +kernel

end

end Review

end Changelog
