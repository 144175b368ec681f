import Changelog.Proofs.Outline.ReadBack
import Changelog.Proofs.Review.Reread

/-! # What a fixed document is written from

Every block of a fixed document is a block of the source, a heading at the place of one, a definition of the source or
of a link, or was built for an empty release.
-/

namespace Changelog

theorem Definitions.mem_addAll {definitions : Definitions} {blocks : List Node} {entry : Text × Node}
    (h : entry ∈ definitions.addAll blocks) : entry ∈ definitions ∨ entry.2 ∈ blocks ∧ entry.2.isNamed := by
  induction blocks generalizing definitions with
  | nil => exact Or.inl h
  | cons block blocks ih =>
      rw [addAll_cons] at h
      split at h
      next named =>
        rcases ih h with h | ⟨h, hnamed⟩
        · obtain ⟨key, hkey⟩ := exists_key?_of_isNamed named
          rw [add_eq_insert _ hkey] at h
          rcases mem_insert h with rfl | h
          · exact Or.inr ⟨List.mem_cons_self, named⟩
          · exact Or.inl h
        · exact Or.inr ⟨List.mem_cons_of_mem block h, hnamed⟩
      next => exact (ih h).imp_right fun h => ⟨List.mem_cons_of_mem block h.1, h.2⟩

namespace Review

variable {env : Environment} {path : Option Path} {options : Options} {root : Node} {project : Project} {fetch : Fetch}
  {o : Outline} {r : Release} {sorting : Sorting} {ordered releases : List Release} {definitions : Definitions} {blocks : List Node}

/-! ## Headings of releases -/

theorem isUnbroken_shownDate (h : ∀ d ∈ r.date, d.IsUnbroken) : (shownDate r).IsUnbroken := by
  unfold shownDate
  cases hdate : r.date.filter (!·.isEmpty) with
  | none => exact (by decide : datePlaceholder.IsUnbroken)
  | some date => exact h date (Option.eq_some_of_filter_eq_some hdate)

theorem isUnbroken_linkedHeading {version : Text} (hversion : r.version = some version)
    (hunbroken : version = unreleased ∨ version.IsUnbroken) (hdate : ∀ d ∈ r.date, d.IsUnbroken) :
    (Node.inlineTextAll (linkedHeading r version)).IsUnbroken := by
  have plain : version.IsUnbroken := by
    rcases hunbroken with rfl | h
    · decide
    · exact h
  rw [linkedHeading_eq]
  split
  next hun =>
    have : version = unreleased := by simpa [Release.isUnreleased, hversion] using hun
    subst this
    decide +kernel
  next =>
    have printed : Node.inlineTextAll [Node.linkReference (Text.lowercase version) (Text.lowercase version) .shortcut
          [Node.ofText version], Node.ofText (ReleaseHeading.dateSeparator ++ shownDate r)] =
        '[' :: (version ++ []) ++ [']'] ++ (ReleaseHeading.dateSeparator ++ shownDate r ++ []) := rfl
    have separator : ReleaseHeading.dateSeparator.IsUnbroken := by decide
    have brackets : isLineEnd '[' = false ∧ isLineEnd ']' = false := by decide
    rw [printed]
    simp [plain, isUnbroken_shownDate hdate, separator, brackets]

theorem isUnbroken_relinked (placed : IsPlaced r) (h : (Node.inlineTextAll r.heading.children).IsUnbroken) :
    (Node.inlineTextAll (relinked r).heading.children).IsUnbroken := by
  have taken := ReleaseHeading.isTakenFrom_ofNodes r.heading.children
  rw [← placed.read] at taken
  cases hlink : link? r with
  | some link =>
      have hversion : r.version = some link.1 := Option.eq_some_of_filter_eq_some (version?_of_link? hlink)
      rw [children_relinked, hlink]
      exact isUnbroken_linkedHeading hversion ((taken.version link.1 hversion).imp_right h.mono) fun d hd =>
        h.mono (taken.date d hd)
  | none =>
      rw [children_relinked, hlink]
      dsimp only
      split
      · decide
      · exact h

/-! ## Blocks of releases -/

theorem isDrawnFrom_of_mem_groupsOf (lines : List Text) {commits : List Commit} {block : Node}
    (h : block ∈ Section.nodesAll (groupsOf commits)) : block.IsDrawnFrom lines := by
  rcases eq_of_mem_nodesAll_groupsOf h with rfl | ⟨entries, rfl⟩
  · refine .heading ⟨rfl, ⟨3, rfl, by decide⟩, ?_⟩ (by rintro _ ⟨⟩)
    have printed : Node.inlineTextAll [Node.ofText uncategorized] = uncategorized ++ [] := rfl
    rw [Node.heading, printed, List.append_nil]
    decide
  · exact .list rfl rfl rfl

/-! ## The whole document -/

theorem mem_of_mem_nodes_layout {block : Node} (h : block ∈ (Layout.ofNodes blocks).nodes) : block ∈ blocks := by
  rw [Layout.nodes_ofNodes] at h
  exact List.mem_of_mem_filter h

theorem mem_of_mem_release {block : Node} (hr : r ∈ (Outline.ofNodes blocks).releases) (h : block ∈ r.stretch.nodes) :
    block ∈ blocks := by
  rw [releases_ofNodes] at hr
  obtain ⟨⟨s, i⟩, hs, rfl⟩ := List.mem_map.mp hr
  have stretch : (placed (s, i)).stretch = s := Release.stretch_ofStretch i s
  rw [stretch] at h
  exact mem_of_mem_nodes_layout (List.mem_append_right _ (List.mem_flatMap.mpr ⟨s, List.fst_mem_of_mem_zipIdx hs, h⟩))

section

variable {content : Text}

theorem isDrawnFrom_fixedTitle {title : Option Node}
    (h : ∀ t ∈ title, t.headingDepth? = some 1 ∧ t ∈ (Document.parse content).children) :
    (fixedTitle title).IsDrawnFrom (Text.lines content) := by
  have unbroken : (Node.inlineTextAll Outline.titleNode.children).IsUnbroken := by decide +kernel
  have written : Outline.titleNode.IsDrawnFrom (Text.lines content) := .heading ⟨rfl, ⟨1, rfl, by decide⟩, unbroken⟩ nofun
  cases title with
  | none => exact written
  | some t =>
      obtain ⟨hdepth, hmem⟩ := h t rfl
      have hkind := Node.kind_of_headingDepth?_isSome (by rw [hdepth]; rfl)
      rw [fixedTitle]
      split
      · exact (Node.isDrawnFrom_of_mem_parse hmem).withChildren hkind unbroken
      · exact written

theorem isDrawnFrom_relinked (placed : IsPlaced r) (h : r.heading.IsDrawnFrom (Text.lines content)) :
    (relinked r).heading.IsDrawnFrom (Text.lines content) := by
  have hkind := Node.kind_of_headingDepth?_isSome placed.heading
  exact h.withChildren hkind (isUnbroken_relinked placed (h.isPlainHeading hkind).1.unbroken)

theorem mem_of_mem_heading {t : Node} (h : t ∈ (Outline.ofNodes blocks).heading) : t ∈ blocks := by
  rw [Outline.ofNodes_eq_ofLayout] at h
  exact mem_of_mem_nodes_layout (List.mem_append_left _ (List.mem_append_left _ (Option.mem_toList.mpr h)))

theorem IsFix.isDrawnFrom_stretch
    (h : IsFix sorting path project fetch (Outline.ofNodes (Document.parse content).children) ordered releases definitions)
    (hr : r ∈ releases) : (relinked r).heading.IsDrawnFrom (Text.lines content) ∧
      ∀ block ∈ r.stretch.blocks, block.IsDrawnFrom (Text.lines content) := by
  obtain ⟨origin, horigin, previous, hfilled⟩ := h.exists_source hr
  have kept : ∀ other ∈ origin.stretch.nodes, other.IsDrawnFrom (Text.lines content) := fun other hother =>
    Node.isDrawnFrom_of_mem_parse (mem_of_mem_release horigin hother)
  refine ⟨?_, ?_⟩
  · have hheading : r.heading = origin.heading := by cases hfilled <;> rfl
    exact isDrawnFrom_relinked (h.isPlaced hr) (hheading ▸ kept _ List.mem_cons_self)
  · intro block hblock
    cases hfilled with
    | kept => exact kept block (List.mem_cons_of_mem _ hblock)
    -- the groups of commits stand behind what was there
    | filled _ _ _ _ =>
        rw [stretch_withGroups] at hblock
        rcases List.mem_append.mp hblock with hblock | hblock
        · exact kept block (List.mem_cons_of_mem _ hblock)
        · exact isDrawnFrom_of_mem_groupsOf _ hblock

theorem IsFix.isDrawnFrom_definitions
    (h : IsFix sorting path project fetch (Outline.ofNodes (Document.parse content).children) ordered releases definitions)
    {entry : Text × Node} (hentry : entry ∈ definitions) : entry.2.IsDrawnFrom (Text.lines content) := by
  rw [h.isKeyed.2.perm.mem_iff] at hentry
  rcases Definitions.mem_addAll hentry with hnone | ⟨hmem, _⟩
  · contradiction
  · rcases List.mem_append.mp hmem with hmem | hmem
    · exact Node.isDrawnFrom_of_mem_parse hmem
    · obtain ⟨link, _, hlink⟩ := List.mem_map.mp hmem
      rw [← hlink]
      exact .definition rfl (by rintro _ ⟨⟩)

/-- Every block of a fixed document is one that a document can be put together from. -/
theorem IsFix.isDrawnFrom
    (h : IsFix sorting path project fetch (Outline.ofNodes (Document.parse content).children) ordered releases definitions)
    {block : Node}
    (hblock : block ∈ (fixedOutline (Outline.ofNodes (Document.parse content).children) releases definitions).nodes) :
    block.IsDrawnFrom (Text.lines content) := by
  rw [nodes_fixedOutline, List.mem_append] at hblock
  rcases hblock with hblock | hblock
  · rcases of_mem_nodes_fixedLayout hblock with rfl | hblock | ⟨r, hr, rfl | hblock⟩
    · exact isDrawnFrom_fixedTitle fun t ht => ⟨headingDepth?_of_mem_heading _ t ht, mem_of_mem_heading ht⟩
    · exact Node.isDrawnFrom_of_mem_parse (mem_of_mem_nodes_layout hblock)
    · exact (h.isDrawnFrom_stretch hr).1
    · exact (h.isDrawnFrom_stretch hr).2 block hblock
  · obtain ⟨entry, hentry, rfl⟩ := List.mem_map.mp hblock
    exact h.isDrawnFrom_definitions hentry

end

end Review

end Changelog
