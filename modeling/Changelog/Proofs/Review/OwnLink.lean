import Changelog.Proofs.Review.Addition
import Changelog.Proofs.Review.Linked

/-! # Every release has a link of its own

The links are kept under their versions in lower case. Where no two releases have one such key, no link is written over
another, so that after fixing each heading leads to the comparison with the next older release.
-/

namespace Changelog

namespace Release

variable {releases front : List Release} {r older last : Release}

theorem previous_of_neighbour (related : relate releases = releases) (h : [r, older] <:+: releases) : r.previous = older.version := by
  obtain ⟨before, after, rfl⟩ := h
  induction before with
  | nil => exact (relate_cons_eq_iff.mp related).1
  | cons first before ih => exact ih (relate_cons_eq_iff.mp related).2

theorem previous_of_last (related : relate (front ++ [last]) = front ++ [last]) : last.previous = none := by
  induction front with
  | nil => exact (relate_cons_eq_iff.mp related).1
  | cons first front ih => exact ih (relate_cons_eq_iff.mp related).2

end Release

namespace Review

open Version

variable {env : Environment} {path : Option Path} {options : Options} {root : Node} {project : Project} {o arranged fixed : Outline}
  {r older : Release} {releases others : List Release} {blocks : List Node} {definitions : Definitions} {fetch : Fetch}

theorem linkNodes_dropLast (related : Release.relate releases = releases) :
    linkNodes project releases = linkNodes project releases.dropLast := by
  rcases List.eq_nil_or_concat' releases with rfl | ⟨front, last, rfl⟩
  · rfl
  · have unlinked : linkable? true last = link? last := linkable?_eq_link? fun _ => Release.previous_of_last related
    have unlinked : link? last = none := unlinked.symm
    rw [List.dropLast_concat]
    simp [linkNodes, unlinked]

theorem mem_dropLast_of_neighbour {α : Type} {x y : α} {xs : List α} (h : [x, y] <:+: xs) : x ∈ xs.dropLast := by
  obtain ⟨before, after, rfl⟩ := h
  rw [List.append_assoc, List.dropLast_append_of_ne_nil (by simp)]
  exact List.mem_append_right before List.mem_cons_self

/-- Has every release a version, and every one but the oldest a key that no other of these has? -/
structure HasOwnKeys (releases : List Release) : Prop where
  named : ∀ r ∈ releases, ∃ version ∈ r.version, version = unreleased ∨ isValid version
  distinct : ((releases.dropLast.filterMap (·.version)).map Text.lowercase).Nodup

theorem version?_of_named {version : Text} (hversion : r.version = some version)
    (named : version = unreleased ∨ isValid version) : r.version? = some version := by
  have filled : version.isEmpty = false := by
    rcases named with rfl | valid
    · rfl
    · simpa using ne_nil_of_isValid valid
  rw [Release.version?, hversion, Option.filter_some, filled]
  rfl

namespace HasOwnKeys

theorem congr (h : HasOwnKeys releases) (same : others.map (·.version) = releases.map (·.version)) : HasOwnKeys others where
  named r hr := by
    have hversion : r.version ∈ releases.map (·.version) := same ▸ List.mem_map_of_mem hr
    obtain ⟨s, hs, hversion⟩ := List.mem_map.mp hversion
    rw [← hversion]
    exact h.named s hs
  distinct := by
    have versions (releases : List Release) :
        releases.dropLast.filterMap (·.version) = (releases.map (·.version)).dropLast.filterMap id := by
      rw [← List.map_dropLast, List.filterMap_map]
      rfl
    rw [versions, same, ← versions]
    exact h.distinct

theorem nodup_version? (h : HasOwnKeys releases) :
    ((releases.dropLast.filterMap Release.version?).map Text.lowercase).Nodup := by
  have same : releases.dropLast.filterMap Release.version? = releases.dropLast.filterMap (·.version) := by
    refine List.filterMap_congr fun r hr => ?_
    obtain ⟨version, hversion, named⟩ := h.named r (List.dropLast_subset releases hr)
    rw [version?_of_named hversion named, hversion]
  rw [same]
  exact h.distinct

theorem exists_link? (h : HasOwnKeys releases) (related : Release.relate releases = releases) (hpair : [r, older] <:+: releases) :
    ∃ version previous, r.version = some version ∧ older.version = some previous ∧ link? r = some (version, previous) := by
  obtain ⟨version, hversion, named⟩ := h.named r (hpair.subset List.mem_cons_self)
  obtain ⟨previous, hprevious, named'⟩ := h.named older (hpair.subset (List.mem_cons_of_mem r List.mem_cons_self))
  have filled : r.previous.filter (!·.isEmpty) = some previous := by
    rw [Release.previous_of_neighbour related hpair]
    exact version?_of_named hprevious named'
  refine ⟨version, previous, hversion, hprevious, ?_⟩
  simp [link?, linkable?, version?_of_named hversion named, filled]

/-- The links, which are added to other definitions, are all found under their keys after sorting. -/
theorem find?_sort (h : HasOwnKeys releases) (related : Release.relate releases = releases) (keyed : definitions.IsKeyed)
    {sorted : Definitions} (hsorted : (definitions.addAll (linkNodes project releases)).sort = .ok sorted)
    (hr : r ∈ releases.dropLast) {link : Text × Text} (hlink : link? r = some link) :
    sorted.find? (Text.lowercase link.1) = some (linkNode project link) := by
  obtain ⟨hkeyed, stable⟩ := isKeyed_of_sort hsorted (Definitions.isKeyed_addAll _ keyed)
  rw [Definitions.find?_perm hkeyed.nodup stable.perm, Definitions.find?_addAll, linkNodes_dropLast related,
    ← List.nil_append (linkNodes project releases.dropLast), lastOf_linkNodes h.nodup_version? hr hlink, Option.some_or]

end HasOwnKeys

theorem exists_reference_relinked {link : Text × Text} (h : link? r = some link) : ∃ reference rest,
    (relinked r).heading.children = reference :: rest ∧ reference.kind = .linkReference ∧
      reference.identifier = some (Text.lowercase link.1) := by
  rw [children_relinked, h]
  dsimp only
  rw [linkedHeading_eq]
  split
  · exact ⟨_, _, rfl, rfl, rfl⟩
  · exact ⟨_, _, rfl, rfl, rfl⟩

theorem exists_infix_of_infix_map {α β : Type} {f : α → β} {xs : List α} {first second : β} (h : [first, second] <:+: xs.map f) :
    ∃ x y, [x, y] <:+: xs ∧ f x = first ∧ f y = second := by
  obtain ⟨pair, hpair, hmap⟩ := List.infix_map_iff.mp h
  obtain ⟨x, rest, rfl, hx, hrest⟩ := List.map_eq_cons_iff.mp hmap.symm
  obtain ⟨y, rfl, hy⟩ := List.map_eq_singleton_iff.mp hrest
  exact ⟨x, y, hpair, hx, hy⟩

theorem definitions_of_arrange (h : (arrange env path options project root o).outcome = .ok arranged) :
    arranged.definitions = o.definitions := by
  obtain ⟨added, sorted, hadded, -, rfl⟩ := outcome_arrange_eq_ok.mp h
  rcases of_addRequested hadded with rfl | ⟨_, _, -, -, -, -, rfl⟩
  · exact definitions_setTitle o
  · exact definitions_setTitle o

/-- Does every release lead to the comparison with the one behind it? -/
def IsLinkedThrough (project : Project) (o : Outline) : Prop :=
  ∀ r older, [r, older] <:+: o.releases → ∃ version previous reference rest,
    r.version = some version ∧ older.version = some previous ∧ r.heading.children = reference :: rest ∧
      reference.kind = .linkReference ∧ o.definitions.target? reference = some (compareUrl project version previous)

theorem isLinkedThrough_of_fixed (fix : options.fix) (keyed : Definitions.IsKeyed o.definitions)
    (harranged : (arrange env path options project root o).outcome = .ok arranged) (own : HasOwnKeys arranged.releases)
    (hfixed : (reviewOutline env path options project fetch root o).outcome = .ok fixed) : IsLinkedThrough project fixed := by
  have versions := map_version_fixed fix harranged hfixed
  obtain ⟨reviewed, definitions, hreviewed, hdefinitions, rfl⟩ := exists_reviewed_of_fixed fix harranged hfixed
  rw [definitions_of_arrange harranged] at hdefinitions
  have related := relate_of_isBackfilled (forall₂_isBackfilled hreviewed)
  have same : reviewed.map (·.version) = arranged.releases.map (·.version) := by
    rw [← versions, List.map_map]
    rfl
  have own' : HasOwnKeys reviewed := own.congr same
  -- what stands side by side after linking stood side by side before
  intro _ _ hlinked
  obtain ⟨r, older, hpair, rfl, rfl⟩ := exists_infix_of_infix_map hlinked
  obtain ⟨version, previous, hversion, hprevious, hlink⟩ := own'.exists_link? related hpair
  obtain ⟨reference, rest, hchildren, hkind, hidentifier⟩ := exists_reference_relinked hlink
  refine ⟨version, previous, reference, rest, hversion, hprevious, hchildren, hkind, ?_⟩
  rw [Definitions.target?, hidentifier, Option.bind_some,
    own'.find?_sort related keyed hdefinitions (mem_dropLast_of_neighbour hpair) hlink]
  rfl

/-- Fixing a document in which the releases have keys of their own links each release to the one behind it. -/
theorem run_fix_links (fix : options.fix) (hpath : isReviewed path)
    (hproject : (projectOf env path options).outcome = .ok project)
    (harranged : (arrange env path options project root (Outline.ofNodes root.children)).outcome = .ok arranged)
    (own : HasOwnKeys arranged.releases) (completed : (run env path options root).outcome = .ok (some blocks)) :
    ∃ fixed, (reviewOutline env path options project (fetchOf env path options) root (Outline.ofNodes root.children)).outcome =
        .ok fixed ∧ blocks = fixed.nodes ∧ fixed.releases.map (·.version) = arranged.releases.map (·.version) ∧
      IsLinkedThrough project fixed := by
  obtain ⟨fixed, hfixed, hblocks⟩ := exists_fixed_of_findProject fix hpath hproject completed
  exact ⟨fixed, hfixed, Option.some.inj hblocks, map_version_fixed fix harranged hfixed,
    isLinkedThrough_of_fixed fix (isKeyed_definitions_ofNodes root.children) harranged own hfixed⟩

/-! ### Versions that differ in case -/

section

open Text (ofString)

def releasesRoot (headings : List Text) : Node :=
  { kind := .root
    children := headings.flatMap fun heading =>
      [Node.heading 2 [Node.ofText heading], Node.paragraph [Node.ofText (ofString "Changed.")]] }

/-- What differs in case from the oldest release only. -/
def casedRoot : Node :=
  releasesRoot [ofString "Unreleased", ofString "1.0.0-rc - 2020-03-01", ofString "1.0.0-RC - 2020-02-01"]

theorem run_fix_links_sample :
    let o := Outline.ofNodes casedRoot.children
    let arranged := { o.setTitle with releases := o.releases }
    sampleOptions.fix ∧ isReviewed none ∧
      (projectOf sampleEnvironment none sampleOptions).outcome = .ok sampleProject ∧
      (arrange sampleEnvironment none sampleOptions sampleProject casedRoot o).outcome = .ok arranged ∧
      HasOwnKeys arranged.releases ∧
      (run sampleEnvironment none sampleOptions casedRoot).outcome = .ok (some (linkedOutline sampleProject o).nodes) ∧
      ∃ fixed, (reviewOutline sampleEnvironment none sampleOptions sampleProject
          (fetchOf sampleEnvironment none sampleOptions) casedRoot o).outcome = .ok fixed ∧
        (linkedOutline sampleProject o).nodes = fixed.nodes ∧
        fixed.releases.map (·.version) = arranged.releases.map (·.version) ∧ IsLinkedThrough sampleProject fixed := by
  intro o arranged
  have ordered : IsOrdered sampleProject o := by decide +kernel
  have harranged : (arrange sampleEnvironment none sampleOptions sampleProject casedRoot o).outcome = .ok arranged :=
    outcome_arrange_eq_ok.mpr ⟨_, _, rfl, Sorting.merging.keeps ordered.isSorted, rfl⟩
  have own : HasOwnKeys arranged.releases := ⟨by decide +kernel, by decide +kernel⟩
  have completed := outcome_run_of_isOrdered rfl rfl rfl rfl found_sample ordered
  exact ⟨rfl, rfl, found_sample, harranged, own, completed, run_fix_links rfl rfl found_sample harranged own completed⟩

/-- Two versions that differ in case are linked, and neither is the oldest. -/
def clashingRoot : Node :=
  releasesRoot [ofString "1.0.0-rc - 2020-03-01", ofString "1.0.0-RC - 2020-02-01", ofString "0.1.0 - 2020-01-01"]

/-- The link of the first release is written over. -/
theorem link_overwritten :
    let o := Outline.ofNodes clashingRoot.children
    let fixed := linkedOutline sampleProject o
    o.releases.map (·.version) = [some (ofString "1.0.0-rc"), some (ofString "1.0.0-RC"), some (ofString "0.1.0")] ∧
      (∀ r ∈ o.releases, ∃ version ∈ r.version, isValid version) ∧
      (reviewOutline sampleEnvironment none sampleOptions sampleProject (fetchOf sampleEnvironment none sampleOptions)
        clashingRoot o).outcome = .ok fixed ∧
      (run sampleEnvironment none sampleOptions clashingRoot).outcome = .ok (some fixed.nodes) ∧
      ¬IsLinkedThrough sampleProject fixed := by
  intro o fixed
  have ordered : IsOrdered sampleProject o := by decide +kernel
  refine ⟨by decide +kernel, by decide +kernel, (outcome_reviewOutline_fix rfl rfl).mpr ⟨_, _, _, ordered.isFix, rfl⟩,
    outcome_run_of_isOrdered rfl rfl rfl rfl found_sample ordered, fun linked => ?_⟩
  obtain ⟨three, versions, leads⟩ : fixed.releases.length = 3 ∧
      fixed.releases.map (·.version) = [some (ofString "1.0.0-rc"), some (ofString "1.0.0-RC"), some (ofString "0.1.0")] ∧
      ((fixed.releases.head?.bind fun r => r.heading.children.head?).bind fixed.definitions.target?) =
        some (ofString "https://github.com/a/b/compare/v0.1.0...v1.0.0-RC") := by decide +kernel
  obtain ⟨r, older, oldest, hreleases⟩ := List.length_eq_three.mp three
  obtain ⟨version, previous, reference, rest, hversion, hprevious, hchildren, -, target⟩ :=
    linked r older ⟨[], [oldest], hreleases.symm⟩
  simp only [hreleases, List.map_cons, List.map_nil, List.cons.injEq, hversion, hprevious, Option.some.injEq] at versions
  simp only [hreleases, List.head?_cons, Option.bind_some, hchildren] at leads
  obtain ⟨rfl, rfl, -⟩ := versions
  rw [leads] at target
  exact absurd target (by decide +kernel)

end

end Review

end Changelog
