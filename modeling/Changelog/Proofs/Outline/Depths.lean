import Changelog.Proofs.Outline.Opening

/-! # Sections by the depths of headings

The releases of a document and the groups of a release can be told from the depths of the headings alone, in the order in
which they stand: the first heading begins one whatever its depth is, and so does every later one that is not too deep.
-/

namespace Changelog

/-- The first of some items, and every later one that satisfies `p`. -/
def firstAndEvery {α : Type} (p : α → Bool) : List α → List α
  | [] => []
  | first :: later => first :: later.filter p

section

variable {α β : Type} {p q : β → Bool} {front : List β} {groups : List α} (first : α → β) (rest : α → List β)

theorem filter_flatMap_of_first (hfront : ∀ b ∈ front, p b = false) (hfirst : ∀ a ∈ groups, p (first a))
    (hrest : ∀ a ∈ groups, ∀ b ∈ rest a, p b = false) :
    (front ++ groups.flatMap fun a => first a :: rest a).filter p = groups.map first := by
  induction groups generalizing front with
  | nil => simpa using hfront
  | cons a groups ih =>
      have skipped : front.filter p = [] := List.filter_eq_nil_iff.mpr fun b hb => ne_true_of_eq_false (hfront b hb)
      obtain ⟨head, tail⟩ := List.forall_mem_cons.mp hfirst
      obtain ⟨inner, later⟩ := List.forall_mem_cons.mp hrest
      rw [List.filter_append, skipped, List.nil_append, List.flatMap_cons, List.cons_append, List.filter_cons_of_pos head,
        ih inner tail later, List.map_cons]

theorem firstAndEvery_flatMap (hpq : ∀ b, p b → q b) (hfront : ∀ b ∈ front, q b = false)
    (hhead : ∀ a ∈ groups.head?, q (first a)) (htail : ∀ a ∈ groups.tail, p (first a))
    (hrest : ∀ a ∈ groups, ∀ b ∈ rest a, p b = false) :
    firstAndEvery p ((front ++ groups.flatMap fun a => first a :: rest a).filter q) = groups.map first := by
  have refined : ∀ bs : List β, (bs.filter q).filter p = bs.filter p := by
    intro bs
    rw [List.filter_filter]
    refine List.filter_congr fun b _ => ?_
    cases hp : p b with
    | false => rfl
    | true => rw [hpq b hp, Bool.and_self]
  have skipped : front.filter q = [] := List.filter_eq_nil_iff.mpr fun b hb => ne_true_of_eq_false (hfront b hb)
  rw [List.filter_append, skipped, List.nil_append]
  cases groups with
  | nil => rfl
  | cons a groups =>
      obtain ⟨inner, later⟩ := List.forall_mem_cons.mp hrest
      rw [List.tail_cons] at htail
      rw [List.flatMap_cons, List.cons_append, List.filter_cons_of_pos (hhead a rfl), firstAndEvery, refined,
        filter_flatMap_of_first first rest inner htail later, List.map_cons]

end

namespace Section

theorem nodesAll_eq_flatMap (sections : List Section) :
    nodesAll sections = sections.flatMap fun s => s.heading :: s.inner := by
  induction sections with
  | nil => rfl
  | cons s rest ih => rw [nodesAll, nodes_eq_cons_inner, ih, List.flatMap_cons]

/-- The first heading in a section and every later one that is just one level deeper begin its subsections. -/
theorem IsGraded.headings_children {level : Nat} {s : Section} (h : IsGraded level s) : s.children.map (·.heading) =
    firstAndEvery (·.headingDepth? = some (level + 1)) (s.inner.filter (·.headingDepth?.isSome)) := by
  rw [inner, nodesAll_eq_flatMap]
  refine (firstAndEvery_flatMap (·.heading) inner (fun b hb => ?_) (fun b hb => ?_) (fun child hchild => ?_)
    (fun child hchild => ?_) (fun child hchild b hb => ?_)).symm
  · simp [of_decide_eq_true hb]
  · simp [h.content b hb]
  · obtain ⟨depth, hd, -⟩ := h.headings.deeper (List.mem_map_of_mem (List.mem_of_mem_head? hchild))
    exact Option.isSome_of_mem hd
  · have headings := h.headings
    cases hs : s.children with
    | nil => simp [hs] at hchild
    | cons first rest =>
        rw [hs] at headings hchild
        simpa using headings.2 _ (List.mem_map_of_mem hchild)
  · rw [decide_eq_false_iff_not]
    exact fun hd => absurd ((h.children child hchild).deeper b hb _ hd) (Nat.lt_irrefl _)

end Section

namespace Outline

/-- The blocks of a document behind its title, without definitions. The title is a heading of first level in front of all
    other blocks. -/
def untitled (blocks : List Node) : List Node :=
  match blocks.filter (!·.isNamed) with
  | [] => []
  | first :: rest => if first.headingDepth? = some 1 then rest else first :: rest

theorem untitled_eq (blocks : List Node) :
    untitled blocks = (Layout.ofNodes blocks).preamble ++ (Layout.ofNodes blocks).releases.flatMap Stretch.nodes := by
  rw [untitled, Layout.ofNodes]
  cases blocks.filter (!·.isNamed) with
  | nil => rfl
  | cons first rest =>
      dsimp only
      rw [Layout.ofUnnamed]
      split
      next => exact (Stretch.flatMap_nodes_cutFirst rest).symm
      next => exact (Stretch.flatMap_nodes_cutFirst (first :: rest)).symm

theorem untitled_eq_append (blocks : List Node) :
    untitled blocks = (ofNodes blocks).content ++ (ofNodes blocks).releases.flatMap (·.body.nodes) := by
  have written := nodes_ofLayout (Layout.ofNodes blocks) []
  simp only [nodes, ofLayout, Layout.nodes, List.map_nil, List.append_nil, List.append_assoc,
    List.append_right_inj] at written
  rw [untitled_eq, ofNodes_eq_ofLayout, ofLayout, written]

theorem headings_releases (blocks : List Node) : (ofNodes blocks).releases.map (·.heading) =
    firstAndEvery Node.startsRelease ((untitled blocks).filter (·.headingDepth?.isSome)) := by
  have sound := Layout.isSound_ofNodes blocks
  have headings : (ofNodes blocks).releases.map (·.heading) = (Layout.ofNodes blocks).releases.map (·.heading) := by
    rw [ofNodes_eq_ofLayout, ofLayout]
    refine List.ext_getElem? fun i => ?_
    simp only [List.getElem?_map, List.getElem?_mapIdx, Option.map_map]
    congr 1
    funext stretch
    exact congrArg Stretch.heading (Release.stretch_ofStretch i stretch)
  rw [headings, untitled_eq]
  refine (firstAndEvery_flatMap Stretch.heading Stretch.blocks
    (fun _ => Node.headingDepth?_isSome_of_startsRelease) (fun b hb => ?_) sound.first sound.later sound.whole).symm
  rw [sound.preamble b hb, Option.isSome_none]

theorem exists_stretch_of_mem {blocks : List Node} {r : Release} (h : r ∈ (ofNodes blocks).releases) :
    ∃ index, ∃ stretch ∈ (Layout.ofNodes blocks).releases, r = Release.ofStretch index stretch := by
  rw [ofNodes_eq_ofLayout] at h
  obtain ⟨index, inside, rfl⟩ := List.mem_mapIdx.mp h
  exact ⟨index, _, List.getElem_mem inside, rfl⟩

/-- Sections follow the depths of headings. Whatever blocks were added, the cursor is at the end of the last section,
    and a heading that is not the title opens a section on the next level. So the first heading behind the title and
    every later one of first or second level begin the releases, the first one in a release and every later one of third
    level begin its groups, and no section is nested deeper than headings are. -/
theorem sections_follow_depths (blocks : List Node) :
    let place := addAll ({}, .root) blocks
    place.1.IsAtEnd place.2 ∧
      (∀ block, ∀ depth ∈ block.headingDepth?, place.1.takesTitle depth = false →
        Opens block (nextLevel place.2.depth depth) place (place.1.add place.2 block)) ∧
      untitled blocks = place.1.content ++ place.1.releases.flatMap (·.body.nodes) ∧
      place.1.releases.map (·.heading) =
        firstAndEvery Node.startsRelease ((untitled blocks).filter (·.headingDepth?.isSome)) ∧
      (∀ r ∈ place.1.releases, r.groups.map (·.heading) =
        firstAndEvery (·.headingDepth? = some 3) (r.body.inner.filter (·.headingDepth?.isSome))) ∧
      ((∀ block ∈ blocks, ∀ depth ∈ block.headingDepth?, depth ≤ 6) →
        ∀ cursor s, place.1.section? cursor = some s → cursor.depth ≤ 6) := by
  have reached : IsReached (addAll ({}, .root) blocks) := (IsReached.root rfl).addAll blocks
  refine ⟨reached.isAtEnd, fun block depth hd => reached.opens hd, untitled_eq_append blocks, headings_releases blocks,
    fun r hr => ?_, fun bounded cursor s hs => ?_⟩
  · obtain ⟨index, stretch, hstretch, rfl⟩ := exists_stretch_of_mem hr
    exact (isGraded_of_mem hstretch index).headings_children
  · -- below the releases, a section is no deeper than its own heading
    obtain ⟨-, deep, before, after, hnodes, -⟩ := exists_extent hs
    by_cases inner : 2 < cursor.depth
    · obtain ⟨depth, hd, hle⟩ := deep inner
      have heading : s.heading ∈ blocks := by
        refine List.mem_of_mem_filter (p := (!·.isNamed)) ?_
        rw [hnodes, Section.nodes_eq_cons_inner]
        simp
      exact Nat.le_trans hle (bounded _ heading depth hd)
    · omega

/-- What a document with a skipped level comes to, and where one more heading of fourth level goes. -/
theorem sections_follow_depths_skipped :
    let blocks := (Document.parse skippedLevel).children
    let place := addAll ({}, .root) blocks
    let block := Node.heading 4 [Node.ofText (Text.ofString "Removed")]
    place.1.takesTitle 4 = false ∧ (∀ block ∈ blocks, ∀ depth ∈ block.headingDepth?, depth ≤ 6) ∧
      place.1.IsAtEnd place.2 ∧ Opens block (nextLevel place.2.depth 4) place (place.1.add place.2 block) ∧
      place.1.releases.map (·.heading) =
        firstAndEvery Node.startsRelease ((untitled blocks).filter (·.headingDepth?.isSome)) ∧
      (∀ r ∈ place.1.releases, r.groups.map (·.heading) =
        firstAndEvery (·.headingDepth? = some 3) (r.body.inner.filter (·.headingDepth?.isSome))) ∧
      ∀ cursor s, place.1.section? cursor = some s → cursor.depth ≤ 6 := by
  intro blocks place block
  have late : place.1.takesTitle 4 = false := rfl
  have bounded : ∀ block ∈ blocks, ∀ depth ∈ block.headingDepth?, depth ≤ 6 := by decide +kernel
  obtain ⟨atEnd, opens, -, releases, groups, shallow⟩ := sections_follow_depths blocks
  exact ⟨late, bounded, atEnd, opens block 4 rfl late, releases, groups, shallow bounded⟩

end Outline

end Changelog
