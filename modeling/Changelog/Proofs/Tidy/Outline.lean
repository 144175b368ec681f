import Changelog.Proofs.Outline.Nesting
import Changelog.Proofs.Tidy.Blocks

/-! # The outline of a tidy changelog

A tidy changelog is read as its releases, one after the other. Each of them says its version and its date, and holds its
groups.
-/

namespace Changelog

open Review

/-! ## Order -/

namespace TidyChangelog

variable {project : Project} {log : TidyChangelog}

theorem pairwise_versions (log : TidyChangelog) :
    (log.releases.map TidyRelease.version).Pairwise fun a b => Version.newestFirst a b = .lt := by
  have trans : Trans (fun a b => Version.newestFirst a b = .lt) (fun a b => Version.newestFirst a b = .lt)
      fun a b => Version.newestFirst a b = .lt := ⟨Std.TransCmp.lt_trans⟩
  rw [← List.isChain_iff_pairwise, List.isChain_map]
  refine log.newestFirst.imp fun r s hrs => ?_
  unfold Version.compareNewest at hrs
  split at hrs
  · contradiction
  · exact Except.ok.inj hrs

theorem map_fst_related (releases : List TidyRelease) : (TidyRelease.related releases).map (·.1) = releases := by
  induction releases with
  | nil => rfl
  | cons r rest ih => rw [TidyRelease.related, List.map_cons, ih]

theorem sublist_links (log : TidyChangelog) : (log.links.map (·.1)).Sublist (log.releases.map TidyRelease.version) := by
  rw [← map_fst_related log.releases, links, related]
  generalize TidyRelease.related log.releases = entries
  induction entries with
  | nil => exact .slnil
  | cons entry entries ih =>
      obtain ⟨r, previous⟩ := entry
      cases previous with
      | none => exact ih.cons _
      | some version => exact ih.cons_cons _

theorem keys_definitions (project : Project) (log : TidyChangelog) : (log.definitions project).keys = log.links.map (·.1) := by
  rw [Definitions.keys, definitions, List.map_map]
  rfl

theorem pairwise_keys (project : Project) (log : TidyChangelog) :
    (log.definitions project).keys.Pairwise fun a b => Version.newestFirst a b = .lt := by
  rw [keys_definitions]
  exact log.pairwise_versions.sublist log.sublist_links

theorem nodup_of_pairwise {versions : List Text} (h : versions.Pairwise fun a b => Version.newestFirst a b = .lt) :
    versions.Nodup := by
  refine h.imp ?_
  rintro a b hab rfl
  rw [Version.newestFirst_self] at hab
  contradiction

theorem isKeyed_definitions (project : Project) (log : TidyChangelog) : (log.definitions project).IsKeyed where
  nodup := nodup_of_pairwise (log.pairwise_keys project)
  keyed := by
    refine List.forall_mem_map.mpr fun link hlink => ?_
    have name := isName_of_mem_links hlink
    simp [Node.definition, Node.key?, name.lowercase_eq]

end TidyChangelog

/-! ## Parts -/

namespace TidyGroup

def toSection (group : TidyGroup) : Section :=
  { heading := Node.heading 3 [Node.ofText group.type], content := [Node.listOf (group.items.map TidyItem.line)] }

theorem foldl_add_nodes (group : TidyGroup) (s : Section) (way : List Nat) :
    group.nodes.foldl Section.add (s, way) =
      ({ s with children := s.children ++ [group.toSection] }, [s.children.length]) := by
  have opened : Section.add (s, way) (Node.heading 3 [Node.ofText group.type]) =
      (s.addChild (Node.heading 3 [Node.ofText group.type]), [s.children.length]) := by
    simp [Section.add, Node.headingDepth?, Node.heading, Section.modifyAt, Section.at?]
  have last : ∀ (sections : List Section) (t : Section) f,
      (sections ++ [t]).modify sections.length f = sections ++ [f t] := by
    intro sections t f
    rw [List.modify_eq_take_cons_drop (by simp)]
    simp
  rw [nodes, List.foldl_cons, opened, List.foldl_cons, List.foldl_nil]
  simp only [Section.add, Node.headingDepth?, Node.listOf, Section.addChild, Section.append, Section.modifyAt, last,
    reduceCtorEq, if_false]
  rfl

theorem ofBlocks_groups (heading : Node) (groups : List TidyGroup) :
    Section.ofBlocks heading (groups.flatMap nodes) = { heading, children := groups.map toSection } := by
  have added : ∀ (s : Section) (way : List Nat), ((groups.flatMap nodes).foldl Section.add (s, way)).1 =
      { s with children := s.children ++ groups.map toSection } := by
    induction groups with
    | nil =>
        rintro ⟨⟩ way
        rw [List.map_nil, List.append_nil]
        rfl
    | cons group groups ih =>
        intro s way
        rw [List.flatMap_cons, List.foldl_append, foldl_add_nodes, ih, List.append_assoc]
        rfl
  exact added _ _

end TidyGroup

namespace TidyChangelog

variable {project : Project} {log : TidyChangelog}

theorem isSound_layout (log : TidyChangelog) : log.layout.IsSound where
  title := by
    rintro t ⟨⟩
    rfl
  preamble := nofun
  first s hs := by
    obtain ⟨entry, -, rfl⟩ := List.mem_map.mp (List.mem_of_mem_head? hs)
    rfl
  later s hs := by
    obtain ⟨entry, -, rfl⟩ := List.mem_map.mp (List.mem_of_mem_tail hs)
    rfl
  whole s hs := by
    obtain ⟨⟨r, previous⟩, -, rfl⟩ := List.mem_map.mp hs
    intro block hblock
    obtain ⟨group, -, hblock⟩ := List.mem_flatMap.mp hblock
    simp only [TidyGroup.nodes, List.mem_cons, List.not_mem_nil, or_false] at hblock
    rcases hblock with rfl | rfl <;> rfl

theorem isNamed_of_mem_layout : ∀ block ∈ log.layout.nodes, block.isNamed = false := by
  refine forall_mem_layout rfl (fun _ _ => rfl) fun group => ?_
  exact List.forall_mem_cons.mpr ⟨rfl, List.forall_mem_singleton.mpr rfl⟩

end TidyChangelog

/-! ## Reading -/

theorem TidyTitle.version_said (linked : Bool) (title : TidyTitle) : (title.said linked).version = some title.version := by
  cases title <;> rfl

/-- A release that was read is a tidy one, which is linked if it has a next older one. -/
structure TidyRelease.IsRead (entry : TidyRelease × Option Text) (s : Release) : Prop where
  said : s.toReleaseHeading = entry.1.title.said entry.2.isSome
  like : (entry.1.stretch entry.2).Like Node.IsCopy s.stretch
  groups : Section.Like Node.IsCopy
    { heading := entry.1.title.node entry.2.isSome, children := entry.1.groups.map TidyGroup.toSection } s.body

namespace TidyRelease

theorem IsRead.version_eq {entry : TidyRelease × Option Text} {s : Release} (h : IsRead entry s) :
    s.version = some entry.1.version := by
  rw [h.said, TidyTitle.version_said]
  rfl

theorem isRead_ofStretch {entry : TidyRelease × Option Text} {t : Stretch}
    (like : (entry.1.stretch entry.2).Like Node.IsCopy t) (index : Nat) : IsRead entry (Release.ofStretch index t) where
  said := like.heading.ofNodes_eq.trans (entry.1.title.ofNodes_inline entry.2.isSome)
  like := by
    rw [Release.stretch_ofStretch]
    exact like
  groups := by
    rw [← TidyGroup.ofBlocks_groups]
    exact Section.Like.ofBlocks (fun _ _ hab => hab.headingDepth?_eq) _ _ like.blocks

theorem forall₂_relate {releases : List TidyRelease} {others : List Release}
    (h : List.Forall₂ IsRead (related releases) others) :
    List.Forall₂ (fun entry s => IsRead entry s ∧ s.previous = entry.2) (related releases) (Release.relate others) := by
  induction releases generalizing others with
  | nil =>
      rw [List.forall₂_nil_left_iff.mp h]
      exact .nil
  | cons r rest ih =>
      obtain ⟨s, ss, hs, hrest, rfl⟩ := List.forall₂_cons_left_iff.mp h
      refine .cons ⟨⟨hs.said, hs.like, hs.groups⟩, ?_⟩ (ih hrest)
      -- the next older version is that of the next release
      cases rest with
      | nil => rw [List.forall₂_nil_left_iff.mp hrest]; rfl
      | cons next rest =>
          obtain ⟨t, ts, ht, -, rfl⟩ := List.forall₂_cons_left_iff.mp hrest
          exact ht.version_eq

end TidyRelease

namespace TidyChangelog

/-- An outline that was read is that of a tidy changelog. -/
structure IsRead (project : Project) (log : TidyChangelog) (o : Outline) : Prop where
  title : ∃ t, o.heading = some t ∧ Outline.titleNode.IsCopy t
  content : o.content = []
  releases : List.Forall₂ (fun entry s => TidyRelease.IsRead entry s ∧ s.previous = entry.2) log.related
    (Release.relate o.releases)
  definitions : (log.definitions project).Like Node.IsCopy o.definitions

/-- The text of a tidy changelog is read as its outline. -/
theorem isRead_parse {project : Project} (plain : project.IsPlain) (log : TidyChangelog) :
    let read := (Document.parse (log.text project)).children
    IsRead project log (Outline.ofNodes read) ∧ read = (Outline.ofNodes read).nodes := by
  intro read
  obtain ⟨layout, entries, hread, like, definitions, outline⟩ := exists_ofLayout_of_forall₂
    (fun a b (hab : a.IsCopy b) => ⟨hab.headingDepth?_eq, hab.key?_eq⟩) log.isSound_layout rfl isNamed_of_mem_layout
    (log.isKeyed_definitions project) (forall₂_isCopy_parse plain log).1
  have outline : Outline.ofNodes read = Outline.ofLayout layout entries := outline
  rw [outline]
  refine ⟨⟨?_, ?_, ?_, definitions⟩, hread.trans (Outline.nodes_ofLayout layout entries).symm⟩
  · obtain ⟨title, preamble, releases⟩ := layout
    cases like.title with
    | some copy => exact ⟨_, rfl, copy⟩
  · exact List.forall₂_nil_left_iff.mp like.preamble
  · have stretches := List.forall₂_map_left_iff.mp like.releases
    exact TidyRelease.forall₂_relate (forall₂_mapIdx stretches fun _ _ i ht => TidyRelease.isRead_ofStretch ht i)

end TidyChangelog

end Changelog
