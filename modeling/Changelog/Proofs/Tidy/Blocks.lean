import Changelog.Proofs.Outline.Layout
import Changelog.Proofs.Review.Address
import Changelog.Proofs.Tidy.Heading

/-! # Blocks of tidy changelogs

The text of a tidy changelog is what its blocks are written as, and it is read as these blocks: no block goes on with
the one behind it, because every list has a heading or a definition behind it.
-/

namespace Changelog

open LineForm Review

/-! ## Nodes -/

namespace TidyGroup

variable {group : TidyGroup}

def nodes (group : TidyGroup) : List Node :=
  [Node.heading 3 [Node.ofText group.type], Node.listOf (group.items.map TidyItem.line)]

theorem isUnbroken_of_mem (group : TidyGroup) : ∀ line ∈ group.items.map TidyItem.line, line.IsUnbroken := by
  refine List.forall_mem_map.mpr fun item _ => ?_
  have marks : (Text.ofString "- ").IsUnbroken := by decide
  exact (Text.isUnbroken_append _ _).mpr ⟨marks, item.unbroken⟩

theorem isItemLine (item : TidyItem) : IsItemLine item.line := ⟨item.text, rfl, item.marked⟩

theorem isListing (group : TidyGroup) : IsListing (group.items.map TidyItem.line) where
  opening := by
    obtain ⟨first, rest, hitems⟩ := List.exists_cons_of_ne_nil group.filled
    rw [hitems, List.map_cons]
    exact ⟨_, _, rfl, isItemLine first, List.forall_mem_map.mpr fun item _ => Or.inr (Or.inr (isItemLine item))⟩
  rounded := by
    refine ⟨(group.items.dropLast).map TidyItem.line, (group.items.getLast group.filled).line, ?_, (isItemLine _).isBlank_eq⟩
    rw [← List.map_singleton, ← List.map_append, List.dropLast_append_getLast]

theorem map_blockText_nodes (group : TidyGroup) : group.nodes.map Node.blockText = group.blocks := by
  have headings : ∀ type ∈ changeTypes,
      (Node.heading 3 [Node.ofText type]).blockText = Text.ofString "### " ++ type := by decide
  rw [nodes, List.map_cons, headings group.type group.known]
  rfl

theorem isExact_of_mem_nodes {node : Node} (h : node ∈ group.nodes) : node.IsExact := by
  have headings : ∀ type ∈ changeTypes, (Node.heading 3 [Node.ofText type]).IsExact := by decide +kernel
  simp only [nodes, List.mem_cons, List.not_mem_nil, or_false] at h
  rcases h with rfl | rfl
  · exact headings group.type group.known
  · exact Node.isExact_listOf group.isListing group.isUnbroken_of_mem

theorem isPlainHeading_heading (group : TidyGroup) : (Node.heading 3 [Node.ofText group.type]).IsPlainHeading := by
  have unbroken : ∀ type ∈ changeTypes, (Node.inlineTextAll [Node.ofText type]).IsUnbroken := by
    decide
  exact ⟨rfl, ⟨3, rfl, by decide⟩, unbroken group.type group.known⟩

end TidyGroup

def TidyRelease.stretch (previous : Option Text) (r : TidyRelease) : Stretch :=
  ⟨r.title.node previous.isSome, r.groups.flatMap TidyGroup.nodes⟩

namespace TidyChangelog

variable {project : Project} {log : TidyChangelog}

def layout (log : TidyChangelog) : Layout :=
  ⟨some Outline.titleNode, [], log.related.map fun (r, previous) => r.stretch previous⟩

def definitions (project : Project) (log : TidyChangelog) : Definitions :=
  log.links.map fun (version, previous) => (version, Node.definition version version (compareUrl project version previous))

def nodes (project : Project) (log : TidyChangelog) : List Node :=
  log.layout.nodes ++ (log.definitions project).map (·.2)

end TidyChangelog

/-! ## What stands behind lists -/

namespace Node

/-- Blocks in which every list has a heading or a definition behind it, and no list comes first. -/
structure IsParted (nodes : List Node) : Prop where
  chain : nodes.IsChain fun a b => a.kind = .list → b.HasMark
  first : ∀ b ∈ nodes.head?, b.HasMark

theorem IsParted.cons {node : Node} {nodes : List Node} (h : IsParted nodes) (mark : node.HasMark) :
    IsParted (node :: nodes) where
  chain := List.isChain_cons.mpr ⟨fun b hb _ => h.first b hb, h.chain⟩
  first _ hb := Option.some.inj hb ▸ mark

end Node

namespace TidyRelease

theorem isParted_groups (groups : List TidyGroup) {nodes : List Node} (h : Node.IsParted nodes) :
    Node.IsParted (groups.flatMap TidyGroup.nodes ++ nodes) := by
  induction groups with
  | nil => exact h
  | cons group groups ih =>
      rw [List.flatMap_cons, List.append_assoc]
      refine ⟨?_, fun _ hb => Option.some.inj hb ▸ group.isPlainHeading_heading.hasMark⟩
      -- behind the list of a group stands the heading of the next one, or what stands behind the groups
      exact List.isChain_cons_cons.mpr ⟨nofun, List.isChain_cons.mpr ⟨fun b hb _ => ih.first b hb, ih.chain⟩⟩

theorem isParted_releases (releases : List (TidyRelease × Option Text)) {nodes : List Node} (h : Node.IsParted nodes) :
    Node.IsParted ((releases.map fun (r, previous) => stretch previous r).flatMap Stretch.nodes ++ nodes) := by
  induction releases with
  | nil => exact h
  | cons first releases ih =>
      rw [List.map_cons, List.flatMap_cons, List.append_assoc]
      exact (isParted_groups _ ih).cons (first.1.title.isPlainHeading_node _).hasMark

end TidyRelease

namespace TidyChangelog

variable {project : Project} {log : TidyChangelog}

theorem exists_title_of_mem_related {releases : List TidyRelease} {r : TidyRelease} {previous : Option Text}
    (h : (r, previous) ∈ TidyRelease.related releases) : ∀ version ∈ previous, ∃ title : TidyTitle, title.version = version := by
  induction releases with
  | nil => contradiction
  | cons first rest ih =>
      rcases List.mem_cons.mp h with h | h
      · cases h
        intro version hversion
        obtain ⟨next, -, rfl⟩ := Option.map_eq_some_iff.mp hversion
        exact ⟨next.title, rfl⟩
      · exact ih h

theorem isName_of_mem_related {releases : List TidyRelease} {r : TidyRelease} {previous : Option Text}
    (h : (r, previous) ∈ TidyRelease.related releases) : ∀ version ∈ previous, Version.IsName version := by
  intro version hversion
  obtain ⟨title, rfl⟩ := exists_title_of_mem_related h version hversion
  exact title.isName_version

theorem exists_titles_of_mem_links {link : Text × Text} (h : link ∈ log.links) :
    ∃ title older : TidyTitle, link = (title.version, older.version) := by
  obtain ⟨⟨r, previous⟩, hmem, hlink⟩ := List.mem_filterMap.mp h
  obtain ⟨version, hversion, rfl⟩ := Option.map_eq_some_iff.mp hlink
  obtain ⟨older, rfl⟩ := exists_title_of_mem_related hmem version hversion
  exact ⟨r.title, older, rfl⟩

theorem isName_of_mem_links {link : Text × Text} (h : link ∈ log.links) : Version.IsName link.1 := by
  obtain ⟨title, older, rfl⟩ := exists_titles_of_mem_links h
  exact title.isName_version

theorem isShortDefinition_of_mem_links (plain : project.IsPlain) {link : Text × Text} (h : link ∈ log.links) :
    Node.IsShortDefinition link.1 (compareUrl project link.1 link.2) := by
  obtain ⟨title, older, rfl⟩ := exists_titles_of_mem_links h
  have short := isShortDefinition_compareUrl plain title.isKnown_version older.isKnown_version
  rwa [title.isName_version.lowercase_eq] at short

theorem map_snd_definitions (project : Project) (log : TidyChangelog) : (log.definitions project).map (·.2) =
    log.links.map fun link => Node.definition link.1 link.1 (compareUrl project link.1 link.2) := by
  rw [definitions, List.map_map]
  rfl

theorem forall_mem_layout {P : Node → Prop} (title : P Outline.titleNode)
    (heading : ∀ linked (t : TidyTitle), P (t.node linked)) (groups : ∀ (group : TidyGroup), ∀ node ∈ group.nodes, P node) :
    ∀ node ∈ log.layout.nodes, P node := by
  intro node hnode
  simp only [layout, Layout.nodes, Option.toList_some, List.append_nil, List.singleton_append, List.mem_cons,
    List.mem_flatMap, List.mem_map, Prod.exists] at hnode
  rcases hnode with rfl | ⟨_, ⟨r, previous, -, rfl⟩, hnode⟩
  · exact title
  · rcases List.mem_cons.mp hnode with rfl | hnode
    · exact heading previous.isSome r.title
    · obtain ⟨group, -, hnode⟩ := List.mem_flatMap.mp hnode
      exact groups group node hnode

theorem forall_mem_nodes {P : Node → Prop} (title : P Outline.titleNode)
    (heading : ∀ linked (t : TidyTitle), P (t.node linked)) (groups : ∀ (group : TidyGroup), ∀ node ∈ group.nodes, P node)
    (links : ∀ link ∈ log.links, P (Node.definition link.1 link.1 (compareUrl project link.1 link.2))) :
    ∀ node ∈ log.nodes project, P node := by
  refine List.forall_mem_append.mpr ⟨forall_mem_layout title heading groups, ?_⟩
  rw [map_snd_definitions]
  exact List.forall_mem_map.mpr links

theorem isExact_of_mem_nodes (plain : project.IsPlain) : ∀ node ∈ log.nodes project, node.IsExact :=
  forall_mem_nodes (by decide +kernel) (fun linked title => title.isExact_node linked)
    (fun group _ hnode => group.isExact_of_mem_nodes hnode)
    fun _ hlink => (isShortDefinition_of_mem_links plain hlink).isExact

theorem isParted_definitions (plain : project.IsPlain) : Node.IsParted ((log.definitions project).map (·.2)) := by
  have marked : ∀ link ∈ log.links,
      (Node.definition link.1 link.1 (compareUrl project link.1 link.2)).HasMark := fun link hlink =>
    (isShortDefinition_of_mem_links plain hlink).isPlainDefinition.hasMark List.not_mem_nil
  rw [map_snd_definitions]
  generalize log.links = links at marked
  induction links with
  | nil => exact ⟨.nil, nofun⟩
  | cons link links ih =>
      obtain ⟨hlink, hlinks⟩ := List.forall_mem_cons.mp marked
      exact (ih hlinks).cons hlink

theorem isChain_nodes (plain : project.IsPlain) : (log.nodes project).IsChain fun a b => a.runsInto b = false := by
  have titled : Outline.titleNode.IsPlainHeading :=
    ⟨rfl, ⟨1, rfl, by decide⟩, by decide⟩
  have parted : Node.IsParted (log.nodes project) := by
    have releases := TidyRelease.isParted_releases log.related (@isParted_definitions project log plain)
    exact releases.cons titled.hasMark
  -- only a list can go on with what is printed behind it, and a mark ends it
  have apart : ∀ a ∈ log.nodes project, ∀ b : Node, (a.kind = .list → b.HasMark) → a.runsInto b = false := by
    refine forall_mem_nodes ?_ ?_ ?_ ?_
    · exact fun b _ => titled.runsInto_eq_false b
    · exact fun linked title b _ => (title.isPlainHeading_node linked).runsInto_eq_false b
    · intro group a ha b hb
      simp only [TidyGroup.nodes, List.mem_cons, List.not_mem_nil, or_false] at ha
      rcases ha with rfl | rfl
      · exact group.isPlainHeading_heading.runsInto_eq_false b
      · exact Node.runsInto_listOf group.isListing group.isUnbroken_of_mem (hb rfl)
    · exact fun link hlink b _ => (isShortDefinition_of_mem_links plain hlink).runsInto_eq_false b
  exact parted.chain.imp_of_mem_imp fun a b ha _ => apart a ha b

/-! ## The text -/

theorem map_blockText_layout (log : TidyChangelog) : log.layout.nodes.map Node.blockText = log.blocks := by
  have title : Outline.titleNode.blockText = Text.ofString "# Changelog" := by decide
  have groups : ∀ groups : List TidyGroup,
      (groups.flatMap TidyGroup.nodes).map Node.blockText = groups.flatMap TidyGroup.blocks := by
    intro groups
    rw [List.map_flatMap]
    exact List.flatMap_congr fun group _ => group.map_blockText_nodes
  simp only [layout, Layout.nodes, Option.toList_some, List.append_nil, List.singleton_append, List.map_cons, title,
    List.flatMap_map, List.map_flatMap, blocks, List.cons.injEq, true_and]
  refine List.flatMap_congr fun entry _ => ?_
  rw [TidyRelease.stretch, Stretch.nodes, List.map_cons, groups, TidyTitle.blockText_node]

theorem map_blockText_definitions (plain : project.IsPlain) (log : TidyChangelog) :
    ((log.definitions project).map (·.2)).map Node.blockText = log.definitionLines project := by
  rw [map_snd_definitions, List.map_map, definitionLines]
  exact List.map_congr_left fun link hlink => (isShortDefinition_of_mem_links plain hlink).blockText_eq

theorem text_eq (plain : project.IsPlain) (log : TidyChangelog) :
    log.text project = Document.blocksText (log.nodes project) ++ ['\n'] := by
  have front : ∀ node ∈ log.layout.nodes, node.position = none ∧ node.kind ≠ .definition := by
    refine forall_mem_layout ⟨rfl, nofun⟩ (fun _ _ => ⟨rfl, nofun⟩) fun group => ?_
    exact List.forall_mem_cons.mpr ⟨⟨rfl, nofun⟩, List.forall_mem_singleton.mpr ⟨rfl, nofun⟩⟩
  have back : ∀ node ∈ (log.definitions project).map (·.2), node.kind = .definition := by
    rw [map_snd_definitions]
    exact List.forall_mem_map.mpr fun _ _ => rfl
  have empty : ((log.definitions project).map (·.2)).isEmpty = (log.definitionLines project).isEmpty := by
    simp [definitions, definitionLines]
  have titled : log.layout.nodes ≠ [] := List.cons_ne_nil _ _
  rw [nodes, Document.blocksText_append titled front back, map_blockText_layout,
    map_blockText_definitions plain, empty]
  rfl

theorem forall₂_isCopy_parse (plain : project.IsPlain) (log : TidyChangelog) :
    List.Forall₂ Node.IsCopy (log.nodes project) (Document.parse (log.text project)).children ∧
      Document.contacts (Document.parse (log.text project)).children = Document.contacts (log.nodes project) := by
  rw [text_eq plain]
  exact Document.forall₂_isCopy_parse (List.cons_ne_nil _ _) (isExact_of_mem_nodes plain) (isChain_nodes plain)

end TidyChangelog

end Changelog
