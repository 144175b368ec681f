import Changelog.Proofs.Outline.Heading
import Changelog.Proofs.Review.Fix

/-! # The fixed document read again

A fixed document has the outline that it was written from: its releases are those that were linked, in their order,
and each says of itself what it said before. Only headings of second level are sure to begin a release wherever they
come to stand.
-/

namespace Changelog

/-! ## Blocks inside a release -/

/-- Is this a block that stays inside a release? -/
def Node.IsInner (block : Node) : Prop := block.startsRelease = false ∧ block.isNamed = false

namespace Review

variable {env : Environment} {path : Option Path} {options : Options} {root : Node} {project : Project} {fetch : Fetch}
  {o : Outline} {r : Release} {sorting : Sorting} {ordered releases : List Release} {definitions : Definitions}

theorem isInner_of_mem_groupsOf {commits : List Commit} {block : Node}
    (h : block ∈ Section.nodesAll (groupsOf commits)) : block.IsInner := by
  rcases eq_of_mem_nodesAll_groupsOf h with rfl | ⟨entries, rfl⟩
  · exact ⟨rfl, rfl⟩
  · exact ⟨rfl, rfl⟩

/-! ## Releases -/

theorem IsFix.exists_source (h : IsFix sorting path project fetch o ordered releases definitions) {r' : Release} (hr' : r' ∈ releases) :
    ∃ r ∈ o.releases, ∃ previous, IsBackfilled project fetch { r with previous } r' := by
  obtain ⟨r, hr, hrr'⟩ := exists_left_of_forall₂ h.backfilled hr'
  obtain ⟨s, hs, previous, rfl⟩ := Release.exists_of_mem_relate hr
  exact ⟨s, (sorting.perm h.arranged).mem_iff.mp hs, previous, hrr'⟩

/-- The versions of a fixed document are those of the sorted source. -/
theorem IsFix.map_version? (h : IsFix sorting path project fetch o ordered releases definitions) :
    releases.map Release.version? = ordered.map Release.version? := by
  rw [← Release.map_relate (fun _ _ => rfl) ordered]
  refine map_eq_map_of_forall₂ (h.backfilled.imp fun r r' hr => ?_)
  rw [Release.version?, Release.version?, hr.version.1]

/-- A release as it stands in a document: what it says of itself its heading says, and what stands under it stays
    inside of it. -/
structure IsPlaced (r : Release) : Prop where
  read : r.toReleaseHeading = ReleaseHeading.ofNodes r.heading.children
  heading : r.heading.headingDepth?.isSome
  inner : ∀ block ∈ r.stretch.blocks, block.IsInner

theorem isPlaced_of_mem_ofNodes {blocks : List Node} (h : r ∈ (Outline.ofNodes blocks).releases) : IsPlaced r := by
  rw [releases_ofNodes] at h
  obtain ⟨⟨s, i⟩, hs, rfl⟩ := List.mem_map.mp h
  have hmem : s ∈ (Layout.ofNodes blocks).releases := List.fst_mem_of_mem_zipIdx hs
  have sound := Layout.isSound_ofNodes blocks
  have unnamed : ∀ block ∈ s.nodes, block.isNamed = false := by
    intro block hblock
    refine @Layout.isNamed_of_mem_nodes_ofNodes blocks block ?_
    exact List.mem_append_right _ (List.mem_flatMap.mpr ⟨s, hmem, hblock⟩)
  have stretch : (placed (s, i)).stretch = s := Release.stretch_ofStretch i s
  have heading : (placed (s, i)).heading = s.heading := congrArg Stretch.heading stretch
  refine ⟨?_, ?_, ?_⟩
  · rw [heading]
    rfl
  · rw [heading]
    exact sound.headingDepth?_isSome hmem
  · intro block hblock
    rw [stretch] at hblock
    exact ⟨sound.whole s hmem block hblock, unnamed block (List.mem_cons_of_mem _ hblock)⟩

theorem IsPlaced.isBackfilled {r' : Release} (h : IsPlaced r) (hr : IsBackfilled project fetch r r') : IsPlaced r' := by
  cases hr with
  | kept => exact h
  | filled _ _ _ _ =>
      refine ⟨h.read, h.heading, ?_⟩
      intro block hblock
      rw [stretch_withGroups] at hblock
      rcases List.mem_append.mp hblock with hblock | hblock
      · exact h.inner block hblock
      · exact isInner_of_mem_groupsOf hblock

/-! ## Headings -/

/-- What a release is asked to say of itself: it has a heading of second level that is understood, and is a version or
    not released yet. -/
structure IsClear (r : Release) : Prop where
  depth : r.heading.depth = some 2
  isParseable : r.isParseable
  version : ∃ version, r.version = some version ∧ (version = unreleased ∨ Version.isValid version)

theorem IsClear.isBackfilled {r' : Release} (h : IsClear r) (hr : IsBackfilled project fetch r r') : IsClear r' := by
  cases hr with
  | kept => exact h
  | filled _ _ _ _ => exact ⟨h.depth, h.isParseable, h.version⟩

theorem IsClear.version?_eq (h : IsClear r) : r.version? = r.version ∧ r.version?.isSome := by
  obtain ⟨version, hversion, hkind⟩ := h.version
  have filled : version.isEmpty = false := by
    cases version with
    | nil => rcases hkind with hkind | hkind <;> revert hkind <;> decide
    | cons c rest => rfl
  simp [Release.version?, hversion, filled]

/-- What the heading of a release says after linking. -/
structure IsToldOf (r : Release) (said : ReleaseHeading) : Prop where
  version : said.version = r.version
  isParseable : said.isParseable = r.isParseable
  title : said.version = some unreleased → said.title = some unreleasedText
  link : (link? r).isSome → said.link = some .linkReference
  date : (link? r).isSome → r.isUnreleased = false → said.date = some (shownDate r)
  kept : link? r = none → r.isUnreleased = false → said = r.toReleaseHeading

theorem isUnsplit_shownDate (placed : IsPlaced r) : Text.IsUnsplit ReleaseHeading.dateSeparator (shownDate r) := by
  unfold shownDate
  cases hdate : r.date.filter (!·.isEmpty) with
  | none => decide
  | some date =>
      have plain := ReleaseHeading.isPlainDate_ofNodes r.heading.children
      rw [← placed.read] at plain
      exact plain date (Option.eq_some_of_filter_eq_some hdate)

theorem isParseable_of_version (placed : IsPlaced r) (h : r.version.isSome) : r.isParseable := by
  have read := placed.read
  have := @ReleaseHeading.isParseable_of_version r.heading.children
  rw [← read] at this
  exact this h

theorem isToldOf_linkedHeading (placed : IsPlaced r) {link : Text × Text} (hlink : link? r = some link) :
    IsToldOf r (ReleaseHeading.ofNodes (linkedHeading r link.1)) := by
  have hversion : r.version = some link.1 := Option.eq_some_of_filter_eq_some (version?_of_link? hlink)
  have parseable : r.isParseable = true := isParseable_of_version placed (by rw [hversion]; rfl)
  rw [linkedHeading_eq]
  cases hun : r.isUnreleased with
  | true =>
      have hunreleased : r.version = some unreleased := of_decide_eq_true hun
      refine ⟨?_, ?_, fun _ => rfl, fun _ => rfl, fun _ h => by simp [hun] at h,
        fun h => by simp [h] at hlink⟩
      · rw [hunreleased]
        rfl
      · rw [parseable]
        rfl
  | false =>
      have released : r.version ≠ some unreleased := of_decide_eq_false hun
      simp only [Bool.false_eq_true, if_false, ReleaseHeading.ofNodes_linked (isUnsplit_shownDate placed)]
      exact ⟨hversion.symm, parseable.symm, fun h => absurd (hversion.trans h) released, fun _ => rfl, fun _ _ => rfl,
        fun h => by simp [h] at hlink⟩

theorem isToldOf_relinked (placed : IsPlaced r) : IsToldOf r (ReleaseHeading.ofNodes (relinked r).heading.children) := by
  rw [children_relinked]
  cases hlink : link? r with
  | some link => exact isToldOf_linkedHeading placed hlink
  | none =>
      cases hun : r.isUnreleased with
      | true =>
          have hunreleased : r.version = some unreleased := of_decide_eq_true hun
          have parseable : r.isParseable = true := isParseable_of_version placed (by rw [hunreleased]; rfl)
          refine ⟨?_, ?_, fun _ => rfl, fun h => by simp [hlink] at h, fun h => by simp [hlink] at h,
            fun _ h => by simp [hun] at h⟩
          · rw [hunreleased]
            rfl
          · rw [parseable]
            rfl
      | false =>
          have released : r.version ≠ some unreleased := of_decide_eq_false hun
          simp only [Bool.false_eq_true, if_false, ← placed.read]
          exact ⟨rfl, rfl, fun h => absurd h released, fun h => by simp [hlink] at h, fun h => by simp [hlink] at h,
            fun _ _ => rfl⟩

/-- A release says the same after it was linked, written and read again. -/
structure IsReread (r s : Release) : Prop where
  told : IsToldOf r s.toReleaseHeading
  heading : s.heading = (relinked r).heading

theorem isReread_ofStretch (placed : IsPlaced r) (index : Nat) :
    IsReread r (Release.ofStretch index (relinked r).stretch) where
  told := isToldOf_relinked placed
  heading := congrArg Stretch.heading (Release.stretch_ofStretch index (relinked r).stretch)

/-- The releases of a fixed document that is read again. -/
def rereleases (releases : List Release) : List Release :=
  (releases.map fun r => (relinked r).stretch).mapIdx Release.ofStretch

theorem forall₂_isReread (placed : ∀ r ∈ releases, IsPlaced r) : List.Forall₂ IsReread releases (rereleases releases) := by
  have each : List.Forall₂ (fun r s => IsPlaced r ∧ s = (relinked r).stretch) releases
      (releases.map fun r => (relinked r).stretch) := by
    rw [List.forall₂_map_right_iff, List.forall₂_same]
    exact fun r hr => ⟨placed r hr, rfl⟩
  refine forall₂_mapIdx each ?_
  rintro r s i ⟨hr, rfl⟩
  exact isReread_ofStretch hr i

/-! ## The outline -/

def fixedLayout (o : Outline) (releases : List Release) : Layout :=
  ⟨some (fixedTitle o.heading), o.content, releases.map fun r => (relinked r).stretch⟩

theorem nodes_fixedOutline (o : Outline) (releases : List Release) (definitions : Definitions) :
    (fixedOutline o releases definitions).nodes = (fixedLayout o releases).nodes ++ definitions.map (·.2) := by
  simp only [Outline.nodes, fixedOutline, Layout.nodes, fixedLayout, List.flatMap_map, Release.nodes_stretch]

theorem headingDepth?_fixedTitle (title : Option Node) (h : ∀ t ∈ title, t.headingDepth? = some 1) :
    (fixedTitle title).headingDepth? = some 1 := by
  cases title with
  | none => rfl
  | some t =>
      have hdepth := h t rfl
      have hkind := Node.kind_of_headingDepth?_isSome (by rw [hdepth]; rfl)
      have : t.depth = some 1 := by simpa [Node.headingDepth?, hkind] using hdepth
      simp [fixedTitle, this, Node.headingDepth?, hkind]

section

variable {blocks : List Node}

theorem IsFix.isPlaced (h : IsFix sorting path project fetch (Outline.ofNodes blocks) ordered releases definitions) (hr : r ∈ releases) :
    IsPlaced r := by
  obtain ⟨source, hsource, previous, hfilled⟩ := h.exists_source hr
  obtain ⟨hread, hheading, hinner⟩ := isPlaced_of_mem_ofNodes hsource
  have related : IsPlaced { source with previous } := ⟨hread, hheading, hinner⟩
  exact related.isBackfilled hfilled

theorem IsFix.isKeyed (h : IsFix sorting path project fetch (Outline.ofNodes blocks) ordered releases definitions) :
    definitions.IsKeyed ∧ IsStableSort (fun a b => Version.newestFirst a.1 b.1)
      (Definitions.addAll [] (blocks ++ linkNodes project releases)) definitions := by
  refine isKeyed_of_sort ?_ (Definitions.isKeyed_addAll _ .nil)
  rw [Definitions.addAll_append, ← h.sorted, Outline.ofNodes_eq_ofLayout]
  rfl

theorem headingDepth?_of_mem_heading (blocks : List Node) :
    ∀ t ∈ (Outline.ofNodes blocks).heading, t.headingDepth? = some 1 := by
  rw [Outline.ofNodes_eq_ofLayout]
  exact (Layout.isSound_ofNodes blocks).title

/-- What stands in a fixed document in front of its definitions: the title, what stood in front of the releases, and
    the releases with the headings that linking writes. -/
theorem of_mem_nodes_fixedLayout {block : Node} (h : block ∈ (fixedLayout (Outline.ofNodes blocks) releases).nodes) :
    block = fixedTitle (Outline.ofNodes blocks).heading ∨ block ∈ (Layout.ofNodes blocks).nodes ∨
      ∃ r ∈ releases, block = (relinked r).heading ∨ block ∈ r.stretch.blocks := by
  simp only [Layout.nodes, fixedLayout, Option.toList_some, List.append_assoc, List.mem_append, List.mem_singleton,
    List.mem_flatMap, List.mem_map] at h
  rcases h with rfl | h | ⟨_, ⟨r, hr, rfl⟩, h⟩
  · exact Or.inl rfl
  · rw [Outline.ofNodes_eq_ofLayout] at h
    exact Or.inr (Or.inl (List.mem_append_left _ (List.mem_append_right _ h)))
  · exact Or.inr (Or.inr ⟨r, hr, List.mem_cons.mp h⟩)

theorem IsFix.isSound (h : IsFix sorting path project fetch (Outline.ofNodes blocks) ordered releases definitions)
    (later : ∀ r ∈ releases.tail, r.heading.startsRelease) : (fixedLayout (Outline.ofNodes blocks) releases).IsSound := by
  refine ⟨?_, ?_, ?_, ?_, ?_⟩
  · rintro t ⟨⟩
    exact headingDepth?_fixedTitle _ (headingDepth?_of_mem_heading blocks)
  · rw [Outline.ofNodes_eq_ofLayout]
    exact (Layout.isSound_ofNodes blocks).preamble
  · intro s hs
    obtain ⟨r, hr, rfl⟩ := List.mem_map.mp (List.mem_of_mem_head? hs)
    exact (h.isPlaced hr).heading
  · intro s hs
    obtain ⟨r, hr, rfl⟩ := List.mem_map.mp (List.map_tail ▸ hs)
    exact later r hr
  · intro s hs
    obtain ⟨r, hr, rfl⟩ := List.mem_map.mp hs
    exact fun block hblock => ((h.isPlaced hr).inner block hblock).1

theorem IsFix.isNamed_fixedLayout (h : IsFix sorting path project fetch (Outline.ofNodes blocks) ordered releases definitions)
    {block : Node} (hblock : block ∈ (fixedLayout (Outline.ofNodes blocks) releases).nodes) : block.isNamed = false := by
  rcases of_mem_nodes_fixedLayout hblock with rfl | hblock | ⟨r, hr, rfl | hblock⟩
  · have title := headingDepth?_fixedTitle _ (headingDepth?_of_mem_heading blocks)
    exact Node.isNamed_of_headingDepth?_isSome (by rw [title]; rfl)
  · exact Layout.isNamed_of_mem_nodes_ofNodes hblock
  · exact Node.isNamed_of_headingDepth?_isSome (h.isPlaced hr).heading
  · exact ((h.isPlaced hr).inner block hblock).2

/-- A fixed document has the outline that it was written from. -/
theorem IsFix.ofNodes_nodes (h : IsFix sorting path project fetch (Outline.ofNodes blocks) ordered releases definitions)
    (later : ∀ r ∈ releases.tail, r.heading.startsRelease) :
    Outline.ofNodes (fixedOutline (Outline.ofNodes blocks) releases definitions).nodes =
      Outline.ofLayout (fixedLayout (Outline.ofNodes blocks) releases) definitions := by
  rw [nodes_fixedOutline]
  exact Outline.ofNodes_nodes (h.isSound later) rfl (fun _ => h.isNamed_fixedLayout) h.isKeyed.1

end

end Review

end Changelog
