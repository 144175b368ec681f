import Changelog.Proofs.Outline.Definitions
import Changelog.Proofs.Outline.Flatten

/-! # Documents put together

The parts of a layout are all blocks of the document but its definitions. In the other direction, a document that
is put together from sound parts and definitions is laid out as just these parts.
-/

namespace Changelog

theorem Node.headingDepth?_isSome_of_startsRelease {node : Node} (h : node.startsRelease) : node.headingDepth?.isSome := by
  cases hd : node.headingDepth? with
  | none => simp [startsRelease, hd] at h
  | some depth => rfl

theorem Node.kind_of_headingDepth?_isSome {node : Node} (h : node.headingDepth?.isSome) : node.kind = .heading := by
  unfold headingDepth? at h
  split at h
  next hkind => exact hkind
  next => contradiction

theorem Node.isNamed_of_headingDepth?_isSome {node : Node} (h : node.headingDepth?.isSome) : node.isNamed = false := by
  simp [isNamed, kind_of_headingDepth?_isSome h]

namespace Stretch

variable {blocks inner : List Node} {releases : List Stretch}

/-! ## Cutting -/

theorem flatMap_nodes_cut (blocks : List Node) : (cut blocks).1 ++ (cut blocks).2.flatMap nodes = blocks := by
  induction blocks with
  | nil => rfl
  | cons block rest ih =>
      unfold cut
      split <;> simpa [nodes] using ih

theorem flatMap_nodes_cutFirst (blocks : List Node) :
    (cutFirst blocks).1 ++ (cutFirst blocks).2.flatMap nodes = blocks := by
  induction blocks with
  | nil => rfl
  | cons block rest ih =>
      unfold cutFirst
      split
      · simpa [nodes] using flatMap_nodes_cut rest
      · simpa using ih

/-- No release begins inside a release. -/
def IsWhole (s : Stretch) : Prop := ∀ block ∈ s.blocks, block.startsRelease = false

theorem cut_spec (blocks : List Node) : (∀ block ∈ (cut blocks).1, block.startsRelease = false) ∧
    ∀ s ∈ (cut blocks).2, s.heading.startsRelease ∧ s.IsWhole := by
  induction blocks with
  | nil => exact ⟨nofun, nofun⟩
  | cons block rest ih =>
      unfold cut
      split
      next starts =>
        refine ⟨List.forall_mem_nil _, ?_⟩
        rintro s (_ | ⟨_, hs⟩)
        · exact ⟨starts, ih.1⟩
        · exact ih.2 s hs
      next inner =>
        refine ⟨?_, ih.2⟩
        rintro b (_ | ⟨_, hb⟩)
        · simpa using inner
        · exact ih.1 b hb

theorem cut_append (h : ∀ block ∈ inner, block.startsRelease = false) (blocks : List Node) :
    cut (inner ++ blocks) = (inner ++ (cut blocks).1, (cut blocks).2) := by
  induction inner with
  | nil => rfl
  | cons block inner ih =>
      have hblock : block.startsRelease = false := h block List.mem_cons_self
      rw [List.cons_append, cut, ih fun b hb => h b (List.mem_cons_of_mem block hb)]
      simp [hblock]

theorem cut_flatMap_nodes (h : ∀ s ∈ releases, s.heading.startsRelease ∧ s.IsWhole) :
    cut (releases.flatMap nodes) = ([], releases) := by
  induction releases with
  | nil => rfl
  | cons s rest ih =>
      have hs := h s List.mem_cons_self
      rw [List.flatMap_cons, nodes, List.cons_append, cut, if_pos hs.1, cut_append hs.2,
        ih fun t ht => h t (List.mem_cons_of_mem s ht), List.append_nil]

end Stretch

namespace Layout

/-- The blocks of a document with the given parts, without definitions. -/
def nodes (layout : Layout) : List Node :=
  layout.title.toList ++ layout.preamble ++ layout.releases.flatMap Stretch.nodes

/-- Every part stands in its place: no heading in the preamble, a heading in front of each release, and none inside
    it with which another one would begin. Only the first release can begin at any level. -/
structure IsSound (layout : Layout) : Prop where
  title : ∀ t ∈ layout.title, t.headingDepth? = some 1
  preamble : ∀ block ∈ layout.preamble, block.headingDepth? = none
  first : ∀ s ∈ layout.releases.head?, s.heading.headingDepth?.isSome
  later : ∀ s ∈ layout.releases.tail, s.heading.startsRelease
  whole : ∀ s ∈ layout.releases, s.IsWhole

variable {layout : Layout} {blocks : List Node}

namespace IsSound

theorem headingDepth?_isSome (h : layout.IsSound) {s : Stretch} (hs : s ∈ layout.releases) :
    s.heading.headingDepth?.isSome := by
  cases hreleases : layout.releases with
  | nil => simp [hreleases] at hs
  | cons first rest =>
      have hfirst := h.first
      have hlater := h.later
      rw [hreleases] at hs hfirst hlater
      rcases List.mem_cons.mp hs with rfl | hs
      · exact hfirst s rfl
      · exact Node.headingDepth?_isSome_of_startsRelease (hlater s hs)

end IsSound

theorem isSound_of_cutFirst {title : Option Node} (htitle : ∀ t ∈ title, t.headingDepth? = some 1) (blocks : List Node) :
    IsSound ⟨title, (Stretch.cutFirst blocks).1, (Stretch.cutFirst blocks).2⟩ := by
  induction blocks with
  | nil => exact ⟨htitle, nofun, nofun, nofun, nofun⟩
  | cons block rest ih =>
      unfold Stretch.cutFirst
      split
      next heading =>
        have tail := Stretch.cut_spec rest
        refine ⟨htitle, List.forall_mem_nil _, ?_, fun s hs => (tail.2 s hs).1, ?_⟩
        · rintro s ⟨⟩
          exact heading
        · rintro s (_ | ⟨_, hs⟩)
          · exact tail.1
          · exact (tail.2 s hs).2
      next plain =>
        refine ⟨htitle, ?_, ih.first, ih.later, ih.whole⟩
        rintro b (_ | ⟨_, hb⟩)
        · simpa using plain
        · exact ih.preamble b hb

theorem isSound_ofNodes (blocks : List Node) : (ofNodes blocks).IsSound := by
  unfold ofNodes
  cases blocks.filter (!·.isNamed) with
  | nil => exact ⟨nofun, nofun, nofun, nofun, nofun⟩
  | cons first rest =>
      rw [ofUnnamed]
      split
      next title =>
        refine isSound_of_cutFirst ?_ rest
        rintro t ⟨⟩
        exact title
      next => exact isSound_of_cutFirst (by simp) (first :: rest)

theorem nodes_ofNodes (blocks : List Node) : (ofNodes blocks).nodes = blocks.filter (!·.isNamed) := by
  unfold ofNodes
  cases blocks.filter (!·.isNamed) with
  | nil => rfl
  | cons first rest =>
      rw [ofUnnamed]
      split
      next => simpa [nodes] using Stretch.flatMap_nodes_cutFirst rest
      next => simpa [nodes] using Stretch.flatMap_nodes_cutFirst (first :: rest)

theorem isNamed_of_mem_nodes_ofNodes {block : Node} (h : block ∈ (ofNodes blocks).nodes) : block.isNamed = false := by
  rw [nodes_ofNodes, List.mem_filter] at h
  simpa using h.2

theorem cutFirst_append (h : ∀ block ∈ blocks, block.headingDepth? = none) (rest : List Node) :
    Stretch.cutFirst (blocks ++ rest) = (blocks ++ (Stretch.cutFirst rest).1, (Stretch.cutFirst rest).2) := by
  induction blocks with
  | nil => rfl
  | cons block blocks ih =>
      have hblock := h block List.mem_cons_self
      rw [List.cons_append, Stretch.cutFirst, ih fun b hb => h b (List.mem_cons_of_mem block hb)]
      simp [hblock]

theorem IsSound.cutFirst_nodes (h : layout.IsSound) :
    Stretch.cutFirst (layout.preamble ++ layout.releases.flatMap Stretch.nodes) = (layout.preamble, layout.releases) := by
  rw [cutFirst_append h.preamble]
  cases hreleases : layout.releases with
  | nil => simp [Stretch.cutFirst]
  | cons s rest =>
      have heading := h.headingDepth?_isSome (hreleases ▸ List.mem_cons_self : s ∈ layout.releases)
      have whole := h.whole
      have later := h.later
      rw [hreleases] at whole later
      have tail := Stretch.cut_flatMap_nodes fun t ht => ⟨later t ht, whole t (List.mem_cons_of_mem s ht)⟩
      rw [List.flatMap_cons, Stretch.nodes, List.cons_append, Stretch.cutFirst, if_pos heading,
        Stretch.cut_append (whole s List.mem_cons_self)]
      simp only [List.tail_cons] at tail
      simp [tail]

end Layout

/-- A document that is put together from sound parts and definitions has the outline of these. -/
theorem Outline.ofNodes_nodes {layout : Layout} {definitions : Definitions} (sound : layout.IsSound)
    (titled : layout.title.isSome) (unnamed : ∀ block ∈ layout.nodes, block.isNamed = false)
    (keyed : definitions.IsKeyed) :
    ofNodes (layout.nodes ++ definitions.map (·.2)) = ofLayout layout definitions := by
  have hlayout : Layout.ofNodes (layout.nodes ++ definitions.map (·.2)) = layout := by
    have first : layout.nodes.filter (!·.isNamed) = layout.nodes := by
      rw [List.filter_eq_self]
      intro block hblock
      simp [unnamed block hblock]
    have second : (definitions.map (·.2)).filter (!·.isNamed) = [] := by
      rw [List.filter_eq_nil_iff]
      intro block hblock
      simp [keyed.isNamed hblock]
    rw [Layout.ofNodes, List.filter_append, first, second, List.append_nil]
    obtain ⟨_ | title, preamble, releases⟩ := layout
    · contradiction
    · have parts := sound.cutFirst_nodes
      have depth := sound.title title rfl
      simp only at parts
      simp [Layout.nodes, Layout.ofUnnamed, depth, parts]
  have hdefinitions : Definitions.addAll [] (layout.nodes ++ definitions.map (·.2)) = definitions := by
    rw [Definitions.addAll_append, Definitions.addAll_of_unnamed unnamed,
      Definitions.addAll_map_snd (by simpa using keyed), List.nil_append]
  rw [ofNodes_eq_ofLayout, hlayout, hdefinitions]

namespace Release

def stretch (r : Release) : Stretch := ⟨r.heading, r.body.content ++ Section.nodesAll r.body.children⟩

theorem nodes_stretch (r : Release) : r.stretch.nodes = r.body.nodes := by
  rw [Section.nodes_eq]
  rfl

@[simp] theorem stretch_ofStretch (index : Nat) (s : Stretch) : (ofStretch index s).stretch = s := by
  have hnodes : (ofStretch index s).stretch.nodes = s.nodes := by rw [nodes_stretch, nodes_ofStretch]
  obtain ⟨heading, blocks⟩ := s
  exact (Stretch.mk.injEq ..).mpr (List.cons.inj hnodes)

end Release

theorem Outline.nodes_ofLayout (layout : Layout) (definitions : Definitions) :
    (ofLayout layout definitions).nodes = layout.nodes ++ definitions.map (·.2) := by
  have releases : (layout.releases.mapIdx Release.ofStretch).flatMap (·.body.nodes) =
      layout.releases.flatMap Stretch.nodes := by
    rw [List.mapIdx_eq_zipIdx_map, List.flatMap_map]
    simp only [Release.nodes_ofStretch]
    rw [← List.flatMap_map (f := fun p : Stretch × Nat => p.1) (g := Stretch.nodes)]
    simp
  simp [Outline.nodes, ofLayout, Layout.nodes, releases]

end Changelog
