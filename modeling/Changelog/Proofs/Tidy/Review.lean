import Changelog.Proofs.Project.Hosting
import Changelog.Proofs.Review.Clean
import Changelog.Proofs.Review.Twice
import Changelog.Proofs.Tidy.Outline

/-! # Reviews of tidy changelogs

There is nothing to remark on in a tidy changelog, and fixing it writes what stands there already: its releases are in
order and say what they have to, and its links are those that fixing would set.
-/

namespace Changelog

open Review

/-! ## Releases -/

theorem TidyVersion.isEmpty_date (v : TidyVersion) : v.date.isEmpty = false := by
  cases hdate : v.date with
  | nil =>
      have dated := v.dated
      rw [hdate] at dated
      contradiction
  | cons c rest => rfl

def TidyTitle.isUnreleased : TidyTitle → Bool
  | unreleased => true
  | released _ => false

namespace TidyRelease.IsRead

variable {entry : TidyRelease × Option Text} {s : Release}

theorem depth_eq (h : IsRead entry s) : s.heading.depth = some 2 := h.like.heading.depth_eq

theorem isParseable (h : IsRead entry s) : s.isParseable := by
  rw [h.said]
  cases entry.1.title <;> rfl

theorem version?_eq (h : IsRead entry s) : s.version? = some entry.1.version := by
  have filled := entry.1.title.isName_version.ne_nil
  rw [Release.version?, h.version_eq]
  simpa [TidyRelease.version] using filled

theorem isClear (h : IsRead entry s) : IsClear s where
  depth := h.depth_eq
  isParseable := h.isParseable
  version := by
    refine ⟨_, h.version_eq, ?_⟩
    rw [TidyRelease.version]
    cases entry.1.title with
    | unreleased => exact Or.inl rfl
    | released v => exact Or.inr v.valid

theorem isUnreleased_eq (h : IsRead entry s) : s.isUnreleased = entry.1.title.isUnreleased := by
  rw [Release.isUnreleased, h.version_eq, TidyRelease.version]
  cases entry.1.title with
  | unreleased => rfl
  | released v =>
      refine decide_eq_false fun same => ?_
      exact v.version_ne_unreleased (Option.some.inj same)

theorem date_eq (h : IsRead entry s) {v : TidyVersion} (title : entry.1.title = .released v) : s.date = some v.date := by
  rw [h.said, title]
  rfl

theorem isFine (h : IsRead entry s) : IsFine s where
  clear := h.isClear
  filled := by
    rw [Release.isEmpty, h.groups.isEmpty_eq]
    simpa [Section.isEmpty] using entry.1.filled
  date released := by
    rw [h.isUnreleased_eq] at released
    cases title : entry.1.title with
    | unreleased =>
        rw [title] at released
        contradiction
    | released v => exact ⟨v.date, h.date_eq title, v.isEmpty_date, isDate_of_isPlainDate v.dated⟩
  groups group hgroup := by
    have both := List.Forall₂.mp (fun _ _ => And.intro) h.groups.headings h.groups.children
    obtain ⟨t, -, ⟨-, heading⟩, like⟩ := exists_left_of_forall₂ (List.forall₂_map_left_iff.mp both) hgroup
    exact groupFindings_of_isCopy t.known heading like.isEmpty_eq s.version

theorem isSettled (h : IsRead entry s) : IsSettled s where
  depth := h.depth_eq
  isParseable := h.isParseable
  title unreleased := by
    rw [h.isUnreleased_eq] at unreleased
    rw [h.said]
    cases title : entry.1.title with
    | unreleased => rfl
    | released v =>
        rw [title] at unreleased
        contradiction

/-! ### Links -/

theorem link?_eq (h : IsRead entry s) (previous : s.previous = entry.2)
    (named : ∀ version ∈ entry.2, Version.IsName version) : link? s = entry.2.map (entry.1.version, ·) := by
  rw [link?, linkable?, h.version?_eq, previous]
  cases hprevious : entry.2 with
  | none => rfl
  | some version =>
      have filled : version.isEmpty = false := List.isEmpty_eq_false_iff.mpr (named version hprevious).ne_nil
      rw [Option.filter_some, filled]
      rfl

theorem link_eq (h : IsRead entry s) (linked : entry.2.isSome) : s.link = some .linkReference := by
  rw [h.said, linked]
  cases entry.1.title <;> rfl

theorem isCopy_relinked (h : IsRead entry s) (link : link? s = entry.2.map (entry.1.version, ·)) :
    (entry.1.title.node entry.2.isSome).IsCopy (relinked s).heading := by
  suffices inside : Node.withoutPositionsAll (relinked s).heading.children = entry.1.title.inline entry.2.isSome from
    h.like.heading.withChildren inside
  have copy : Node.withoutPositionsAll s.heading.children = entry.1.title.inline entry.2.isSome := by
    rw [← Node.children_withoutPositions]
    exact congrArg Node.children h.like.heading
  have name := entry.1.title.isName_version.lowercase_eq
  rw [children_relinked, link]
  cases linked : entry.2 with
  | some version =>
      show Node.withoutPositionsAll (linkedHeading s entry.1.version) = _
      rw [linkedHeading_eq, TidyRelease.version, name, h.isUnreleased_eq]
      cases title : entry.1.title with
      | unreleased => rfl
      | released v =>
          rw [shownDate_of_date (h.date_eq title) v.isEmpty_date]
          rfl
  | none =>
      show Node.withoutPositionsAll (if s.isUnreleased then _ else _) = _
      rw [h.isUnreleased_eq]
      cases title : entry.1.title with
      | unreleased => rfl
      | released v =>
          rw [linked, title] at copy
          exact copy

end TidyRelease.IsRead

/-! ## The outline -/

theorem TidyTitle.hasLongCandidate_version (title : TidyTitle) : Version.hasLongCandidate title.version = false := by
  cases title with
  | unreleased => decide
  | released v => exact v.comparable

namespace TidyChangelog

variable {project : Project} {log : TidyChangelog} {o : Outline}

theorem anyClash_versions (log : TidyChangelog) : Version.anyClash (log.releases.map TidyRelease.version) = false :=
  Version.anyClash_eq_false (List.forall_mem_map.mpr fun r _ => r.title.hasLongCandidate_version)

theorem anyClash_keys (project : Project) (log : TidyChangelog) : Version.anyClash (log.definitions project).keys = false := by
  rw [keys_definitions]
  refine Version.anyClash_eq_false fun version hversion => ?_
  obtain ⟨r, -, rfl⟩ := List.mem_map.mp (log.sublist_links.subset hversion)
  exact r.title.hasLongCandidate_version

namespace IsRead

theorem forall₂_link? (h : IsRead project log o) : List.Forall₂
    (fun entry s => TidyRelease.IsRead entry s ∧ link? s = entry.2.map (entry.1.version, ·)) log.related
    (Release.relate o.releases) := by
  have named := (List.forall₂_and_left _ _).mpr ⟨fun _ hentry => isName_of_mem_related hentry, h.releases⟩
  exact named.imp fun _ _ ⟨hnamed, hread, hprevious⟩ => ⟨hread, hread.link?_eq hprevious hnamed⟩

theorem linkNodes_eq (h : IsRead project log o) :
    linkNodes project (Release.relate o.releases) = (log.definitions project).map (·.2) := by
  have links : (Release.relate o.releases).filterMap link? = log.links :=
    filterMap_eq_of_map_eq (map_eq_map_of_forall₂ (h.forall₂_link?.imp fun _ _ hs => hs.2))
  rw [linkNodes, links, map_snd_definitions]
  refine List.map_congr_left fun link hlink => ?_
  rw [linkNode, (isName_of_mem_links hlink).lowercase_eq]

theorem definitions_linkedOutline (h : IsRead project log o) :
    (linkedOutline project o).definitions = log.definitions project := by
  rw [linkedOutline, fixedOutline, h.linkNodes_eq]
  exact h.definitions.addAll_eq (log.isKeyed_definitions project)

theorem map_version? (h : IsRead project log o) :
    o.releases.map Release.version? = (log.releases.map TidyRelease.version).map some := by
  rw [← Release.map_relate (fun _ _ => rfl) o.releases, ← map_fst_related log.releases, List.map_map, List.map_map]
  exact map_eq_map_of_forall₂ (h.releases.imp fun _ _ hs => hs.1.version?_eq)

theorem filterMap_version? (h : IsRead project log o) :
    o.releases.filterMap Release.version? = log.releases.map TidyRelease.version := by
  rw [filterMap_eq_of_map_eq h.map_version?, List.filterMap_some]

theorem isOrdered (h : IsRead project log o) : IsOrdered project o where
  comparable := by
    rw [h.filterMap_version?]
    exact log.anyClash_versions
  ordered := by
    have known : ∀ r ∈ o.releases, r.version?.isSome := by
      intro r hr
      have hversion : r.version? ∈ o.releases.map Release.version? := List.mem_map_of_mem hr
      rw [h.map_version?] at hversion
      obtain ⟨version, -, hsome⟩ := List.mem_map.mp hversion
      rw [← hsome]
      rfl
    -- the order of the releases is that of their versions
    have versions : (o.releases.map Release.version?).Pairwise fun a b =>
        ∀ v ∈ a, ∀ w ∈ b, Version.newestFirst v w = .lt := by
      rw [h.map_version?, List.pairwise_map]
      refine log.pairwise_versions.imp ?_
      rintro a b hab _ ⟨⟩ _ ⟨⟩
      exact hab
    refine (List.pairwise_map.mp versions).imp_of_mem fun {r s} hr hs hlt => ?_
    obtain ⟨v, hv⟩ := Option.isSome_iff_exists.mp (known r hr)
    obtain ⟨w, hw⟩ := Option.isSome_iff_exists.mp (known s hs)
    simp [Release.newestFirst, hv, hw, hlt v hv w hw]
  filled s hs := by
    obtain ⟨entry, -, hread, -⟩ := exists_left_of_forall₂ h.releases hs
    exact hread.isFine.filled
  known := by
    rw [h.definitions_linkedOutline]
    exact log.anyClash_keys project
  sorted := by
    rw [h.definitions_linkedOutline]
    refine (List.pairwise_map.mp (log.pairwise_keys project)).imp fun hab => ?_
    rw [hab]
    rfl

theorem remarksAfter_eq_nil (h : IsRead project log o) : remarksAfter [] (Release.relate o.releases) = [] := by
  have each : ∀ s ∈ Release.relate o.releases, ∃ entry, TidyRelease.IsRead entry s := by
    intro s hs
    obtain ⟨entry, -, hread, -⟩ := exists_left_of_forall₂ h.releases hs
    exact ⟨entry, hread⟩
  refine Review.remarksAfter_eq_nil (fun s hs => (each s hs).elim fun _ => TidyRelease.IsRead.isFine)
    (fun s hs => (each s hs).elim fun _ => TidyRelease.IsRead.isSettled) ?_
  rw [filterMap_eq_of_map_eq (Release.map_relate (fun _ _ => rfl) o.releases), h.filterMap_version?]
  exact nodup_of_pairwise log.pairwise_versions

theorem url_of_mem_links (h : IsRead project log o) {link : Text × Text} (hlink : link ∈ log.links) :
    (o.definitions.find? (Text.lowercase link.1)).bind Node.url = some (compareUrl project link.1 link.2) := by
  have name := isName_of_mem_links hlink
  have found : (log.definitions project).find? link.1 =
      some (Node.definition link.1 link.1 (compareUrl project link.1 link.2)) :=
    (Definitions.find?_eq_some_iff (log.isKeyed_definitions project).nodup).mpr (List.mem_map.mpr ⟨link, hlink, rfl⟩)
  obtain ⟨node, hnode, copy⟩ := h.definitions.exists_find? found
  rw [name.lowercase_eq, hnode, Option.bind_some, copy.url_eq]
  rfl

theorem linkRemarks_eq_nil (h : IsRead project log o) :
    linkRemarks project o.definitions (Release.relate o.releases) = [] := by
  rw [linkRemarks_eq (Release.relate_eq_self (List.forall₂_same.mpr fun _ _ => ⟨rfl, rfl⟩)), List.flatMap_eq_nil_iff]
  intro s hs
  obtain ⟨⟨r, previous⟩, hmem, hread, hlink⟩ := exists_left_of_forall₂ h.forall₂_link? hs
  rw [List.map_eq_nil_iff]
  refine linkFindings_eq_nil fun link found => ?_
  rw [hlink] at found
  obtain ⟨version, rfl, rfl⟩ := Option.map_eq_some_iff.mp found
  exact ⟨hread.link_eq rfl, h.url_of_mem_links (List.mem_filterMap.mpr ⟨_, hmem, rfl⟩)⟩

theorem hasTitle (h : IsRead project log o) : o.hasTitle := by
  obtain ⟨t, ht, copy⟩ := h.title
  exact hasTitle_of_isCopy ht copy

theorem isSorted_definitions (h : IsRead project log o) : o.definitions.isSorted = .ok true := by
  rw [Definitions.isSorted, show o.definitions.map (·.1) = _ from h.definitions.keys_eq]
  have known : ∀ a ∈ (log.definitions project).keys, ∀ b ∈ (log.definitions project).keys,
      Version.compareNewest a b = .ok (Version.newestFirst a b) := fun _ ha _ hb =>
    Version.compareNewest_eq_ok (Version.clash_eq_false (log.anyClash_keys project) ha hb)
  exact isSortedBy_of_pairwise known ((log.pairwise_keys project).imp fun hab => by rw [hab]; rfl)

/-! ## The document after fixing -/

theorem nodes_linkedOutline (h : IsRead project log o) : (linkedOutline project o).nodes =
    (fixedLayout o (Release.relate o.releases)).nodes ++ (log.definitions project).map (·.2) := by
  rw [← h.definitions_linkedOutline]
  exact nodes_fixedOutline _ _ _

theorem fixedTitle_eq {t : Node} (copy : Outline.titleNode.IsCopy t) :
    fixedTitle (some t) = { t with children := Outline.titleNode.children } := by
  have depth : t.depth = some 1 := copy.depth_eq
  rw [fixedTitle, if_pos depth]

theorem forall₂_isCopy_nodes (h : IsRead project log o) :
    List.Forall₂ Node.IsCopy (log.nodes project) (linkedOutline project o).nodes := by
  obtain ⟨t, ht, copy⟩ := h.title
  have title : Outline.titleNode.IsCopy (fixedTitle o.heading) := by
    rw [ht, fixedTitle_eq copy]
    exact copy.withChildren rfl
  have releases : List.Forall₂ Node.IsCopy ((log.related.map fun s => s.1.stretch s.2).flatMap Stretch.nodes)
      (((Release.relate o.releases).map fun s => (relinked s).stretch).flatMap Stretch.nodes) := by
    refine List.rel_flatMap (R := fun s t => List.Forall₂ Node.IsCopy s.nodes t.nodes) ?_ fun _ _ hst => hst
    rw [List.forall₂_map_left_iff, List.forall₂_map_right_iff]
    exact h.forall₂_link?.imp fun _ _ hs => .cons (hs.1.isCopy_relinked hs.2) hs.1.like.blocks
  have definitions : List.Forall₂ Node.IsCopy ((log.definitions project).map (·.2)) ((log.definitions project).map (·.2)) := by
    rw [map_snd_definitions]
    exact List.forall₂_same.mpr (List.forall_mem_map.mpr fun _ _ => rfl)
  rw [h.nodes_linkedOutline, TidyChangelog.nodes, Layout.nodes, Layout.nodes, fixedLayout, h.content]
  exact List.rel_append (List.rel_append (.cons title .nil) releases) definitions

theorem forall₂_takesPlaceOf_nodes (h : IsRead project log o) :
    List.Forall₂ Node.TakesPlaceOf o.nodes (linkedOutline project o).nodes := by
  obtain ⟨t, ht, copy⟩ := h.title
  have title : t.TakesPlaceOf (fixedTitle (some t)) := by
    rw [fixedTitle_eq copy]
    exact ⟨rfl, Or.inl rfl⟩
  have releases : List.Forall₂ Node.TakesPlaceOf (o.releases.flatMap (·.body.nodes))
      (((Release.relate o.releases).map fun s => (relinked s).stretch).flatMap Stretch.nodes) := by
    have related : o.releases.flatMap (·.body.nodes) = (Release.relate o.releases).flatMap (·.body.nodes) := by
      rw [List.flatMap_def, List.flatMap_def, Release.map_relate fun _ _ => rfl]
    rw [related]
    refine List.rel_flatMap (R := fun s t => List.Forall₂ Node.TakesPlaceOf s.body.nodes t.nodes) ?_ fun _ _ hst => hst
    rw [List.forall₂_map_right_iff, List.forall₂_same]
    intro s _
    rw [← Release.nodes_stretch]
    exact takesPlaceOf_relinked s
  have definitions : List.Forall₂ Node.TakesPlaceOf (o.definitions.map (·.2)) ((log.definitions project).map (·.2)) := by
    rw [List.forall₂_map_left_iff, List.forall₂_map_right_iff]
    exact h.definitions.flip.imp fun _ _ hab => ⟨hab.2.kind_eq.symm, Or.inr hab.2.position_eq⟩
  rw [h.nodes_linkedOutline, Outline.nodes, Layout.nodes, fixedLayout, ht, h.content]
  exact List.rel_append (List.rel_append (.cons title .nil) releases) definitions

theorem print_linkedOutline (plain : project.IsPlain) {root : Node} (h : IsRead project log o) (nodes : root.children = o.nodes)
    (touch : Document.contacts root.children = Document.contacts (log.nodes project)) :
    Document.print { root with children := (linkedOutline project o).nodes } = log.text project := by
  have copies := h.forall₂_isCopy_nodes
  have texts := map_eq_map_of_forall₂ (copies.imp fun _ _ copy => copy.blockText_eq)
  rw [nodes] at touch
  -- every block is written as it was, and where it was
  have touch' := Document.contacts_eq h.forall₂_takesPlaceOf_nodes
    (copies.imp fun _ _ copy => ⟨copy.kind_eq, fun _ => copy.position_eq⟩) touch
  have filled : (linkedOutline project o).nodes.isEmpty = false := by
    rw [isEmpty_of_forall₂ copies]
    rfl
  rw [text_eq plain, Document.print, filled, Document.blocksText_congr texts touch']
  rfl

end IsRead

end TidyChangelog

/-! ## The whole run -/

namespace Review

variable {env : Environment} {path : Option Path} {options : Options} {root : Node} {project : Project} {log : TidyChangelog}

theorem run_lint_of_isRead (lint : options.fix = false) (hpath : isReviewed path) (hroot : root.kind = .root)
    (hproject : (projectOf env path options).outcome = .ok project)
    (h : log.IsRead project (Outline.ofNodes root.children)) :
    (run env path options root).outcome = .ok none ∧ (run env path options root).diagnostics = [] := by
  obtain ⟨outcome, diagnostics⟩ := run_lint lint hpath hroot hproject
  obtain ⟨reviewed, remarks⟩ := @reviewOutline_lint env path options root project (fetchOf env path options)
    (Outline.ofNodes root.children) true lint h.hasTitle h.isOrdered.isSorted h.isSorted_definitions
  rw [h.remarksAfter_eq_nil, h.linkRemarks_eq_nil] at remarks
  rw [reviewed] at outcome
  exact ⟨outcome, diagnostics.trans remarks⟩

theorem run_fix_of_isRead (fix : options.fix) (noAdd : options.add = none) (hpath : isReviewed path)
    (hroot : root.kind = .root)
    (hproject : (projectOf env path options).outcome = .ok project)
    (h : log.IsRead project (Outline.ofNodes root.children)) :
    (run env path options root).outcome = .ok (some (linkedOutline project (Outline.ofNodes root.children)).nodes) ∧
      (run env path options root).diagnostics = [] :=
  ⟨outcome_run_of_isOrdered fix noAdd hpath hroot hproject h.isOrdered,
    diagnostics_run_of_isOrdered fix noAdd hpath hroot hproject h.isOrdered h.remarksAfter_eq_nil⟩

/-- There is nothing to report on a tidy changelog of a project, and nothing to fix in it. -/
theorem outcome_text_of_isPlain (noAdd : options.fix → options.add = none) (hpath : isReviewed path)
    (hproject : (projectOf env path options).outcome = .ok project)
    (plain : project.IsPlain) (log : TidyChangelog) : (text env path options (log.text project)).outcome =
      .ok { diagnostics := [], content := log.text project, changed := false } := by
  obtain ⟨h, nodes⟩ := log.isRead_parse plain
  cases fix : options.fix with
  | false =>
      obtain ⟨outcome, diagnostics⟩ := run_lint_of_isRead fix hpath rfl hproject h
      simp only [text, outcome, diagnostics, Except.map]
  | true =>
      obtain ⟨outcome, diagnostics⟩ := run_fix_of_isRead fix (noAdd fix) hpath rfl hproject h
      have touch := (log.forall₂_isCopy_parse plain).2
      rw [outcome_text_of_run outcome (h.print_linkedOutline plain nodes touch), diagnostics]
      simp

/-! ## Projects with an owner and a name -/

variable {directory : Path} {owner name version : Text} {tags : List Text}

def hosted (owner name version : Text) (tags : List Text) : Project :=
  ⟨tags, Hosting.browsable (Text.ofString "github.com") (owner ++ '/' :: name), version⟩

theorem isPlain_hosted (howner : ∀ c ∈ owner, Hosting.isNameChar c) (hname : ∀ c ∈ name, Hosting.isNameChar c) :
    (hosted owner name version tags).IsPlain where
  filled := by
    have scheme : ∀ c ∈ Text.ofString "https://" ++ Text.ofString "github.com", isBlankChar c = false := by decide
    refine List.forall_mem_append.mpr ⟨scheme, List.forall_mem_cons.mpr ⟨by decide, ?_⟩⟩
    exact Hosting.filled_of_names howner hname
  head := by
    show some 'h' ≠ some '<'
    decide

/-- A tidy changelog of any project that is given by its owner and its name, whatever its version and its tags: there is
    nothing to report on it, and fixing leaves it as it is. -/
theorem text_of_tidyChangelog (hrepository : options.repository = some (owner ++ '/' :: name))
    (hversion : options.version = some version) (htags : options.tags = some tags)
    (noAdd : options.fix → options.add = none) (howner : ∀ c ∈ owner, Hosting.isNameChar c)
    (hname : ∀ c ∈ name, Hosting.isNameChar c) (hne : owner ≠ []) (hne' : name ≠ []) (valid : Version.isValid version)
    (hpath : isReviewed path) (resolved : projectDirectory env options path = .ok directory) (log : TidyChangelog) :
    let content := log.text (hosted owner name version tags)
    (text env path options content).outcome = .ok { diagnostics := [], content, changed := false } := by
  have hproject : (projectOf env path options).outcome = .ok (hosted owner name version tags) := by
    rw [projectOf_eq resolved]
    exact outcome_findProject_of_given directory htags hrepository hversion (List.append_ne_nil_of_left_ne_nil hne _) valid
      (Hosting.url?_of_names howner hname hne hne')
  exact outcome_text_of_isPlain noAdd hpath hproject (isPlain_hosted howner hname) log

/-! ### A tidy changelog -/

open Text (ofString)

def sampleChangelog : TidyChangelog where
  releases := [
    { title := .unreleased
      groups := [⟨ofString "Added", [⟨ofString "a", by decide, by decide⟩], by decide, by simp⟩], filled := by simp },
    { title := .released ⟨ofString "1.1.0", ofString "2024-02-02", by decide +kernel, by decide, by decide, by decide, by decide⟩
      groups := [
        ⟨ofString "Fixed", [⟨ofString "b", by decide, by decide⟩, ⟨ofString "c", by decide, by decide⟩], by decide, by simp⟩]
      filled := by simp },
    { title := .released ⟨ofString "1.0.0", ofString "2024-01-01", by decide +kernel, by decide, by decide, by decide, by decide⟩
      groups := [⟨ofString "Added", [⟨ofString "d", by decide, by decide⟩], by decide, by simp⟩], filled := by simp }]
  newestFirst := by
    refine List.isChain_cons_cons.mpr ⟨by decide +kernel, List.isChain_cons_cons.mpr ⟨by decide +kernel, .singleton _⟩⟩

def sampleChangelogText : Text :=
  ofString "# Changelog\n\n## [Unreleased][unreleased]\n\n### Added\n\n- a\n\n" ++
    ofString "## [1.1.0] - 2024-02-02\n\n### Fixed\n\n- b\n- c\n\n" ++
    ofString "## 1.0.0 - 2024-01-01\n\n### Added\n\n- d\n\n" ++
    ofString "[unreleased]: https://github.com/a/b/compare/v1.1.0...HEAD\n" ++
    ofString "[1.1.0]: https://github.com/a/b/compare/v1.0.0...v1.1.0\n"

theorem text_of_tidyChangelog_sample : sampleChangelog.text sampleProject = sampleChangelogText ∧
    (text sampleEnvironment none sampleOptions sampleChangelogText).outcome =
      .ok { diagnostics := [], content := sampleChangelogText, changed := false } := by
  have written : sampleChangelog.text sampleProject = sampleChangelogText := by decide +kernel
  refine ⟨written, ?_⟩
  rw [← written]
  exact @text_of_tidyChangelog sampleEnvironment none sampleOptions default (ofString "a") (ofString "b") (ofString "1.0.0")
    [] rfl rfl rfl (fun _ => rfl) (by decide) (by decide) (by decide) (by decide) (by decide +kernel) rfl
    (by decide +kernel) sampleChangelog

end Review

end Changelog
