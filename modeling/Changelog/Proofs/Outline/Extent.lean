import Changelog.Proofs.Outline.Levels
import Changelog.Markdown.Block

/-! # How far a section reaches

A section of a document is its heading and everything up to the next heading that is no deeper than the level of the
section. This is the next heading of equal or lower depth as long as no level was skipped in front of the section. Where
one was skipped, the section takes in headings that are as deep as its own.
-/

namespace Changelog

theorem Node.any_headingDepth? {p : Nat → Bool} {node : Node} :
    node.headingDepth?.any p ↔ ∃ depth ∈ node.headingDepth?, p depth := by
  cases node.headingDepth? <;> simp

namespace Outline

variable {blocks : List Node} {index : Nat} {r : Release} {cursor : Cursor} {s : Section}

theorem exists_stretch (h : (ofNodes blocks).release? index = some r) :
    ∃ front stretch rest, (Layout.ofNodes blocks).releases = front ++ stretch :: rest ∧
      r = Release.ofStretch index stretch := by
  have hindex : r.index = index := by simpa using List.find?_some h
  have hmem : r ∈ (Layout.ofNodes blocks).releases.mapIdx Release.ofStretch := by
    have := List.mem_of_find?_eq_some h
    rwa [ofNodes_eq_ofLayout] at this
  obtain ⟨i, inside, rfl⟩ := List.mem_mapIdx.mp hmem
  obtain ⟨front, rest, hsplit⟩ := List.append_of_mem (List.getElem_mem inside)
  exact ⟨front, _, rest, hsplit, by rw [← hindex]; rfl⟩

theorem isGraded_of_mem {stretch : Stretch} (h : stretch ∈ (Layout.ofNodes blocks).releases) (index : Nat) :
    Section.IsGraded 2 (Release.ofStretch index stretch).body :=
  Section.isGraded_ofBlocks ((Layout.isSound_ofNodes blocks).whole stretch h) stretch.heading

/-- A section of a document is graded by its headings, its own one is as deep as its level at least unless it begins a
    release, and it is written in one piece up to a heading that is no deeper than its level. -/
theorem exists_extent (h : (ofNodes blocks).section? cursor = some s) : s.IsGraded cursor.depth ∧
    (2 < cursor.depth → ∃ depth ∈ s.heading.headingDepth?, cursor.depth ≤ depth) ∧
    ∃ before after, blocks.filter (!·.isNamed) = before ++ s.nodes ++ after ∧ Section.EndsAt cursor.depth after := by
  cases cursor with
  | root => contradiction
  | inside index way =>
      obtain ⟨r, hr, hat⟩ := Option.bind_eq_some_iff.mp h
      obtain ⟨front, stretch, rest, hreleases, rfl⟩ := exists_stretch hr
      have hstretch : stretch ∈ (Layout.ofNodes blocks).releases := by simp [hreleases]
      obtain ⟨graded, deep, before, after, hnodes, hafter⟩ := (isGraded_of_mem hstretch index).at? hat
      rw [Cursor.depth, Nat.add_comm]
      refine ⟨graded, fun inner => deep (by rintro rfl; exact absurd inner (Nat.lt_irrefl 2)),
        (Layout.ofNodes blocks).title.toList ++ (Layout.ofNodes blocks).preamble ++ front.flatMap Stretch.nodes ++ before,
        after ++ rest.flatMap Stretch.nodes, ?_,
        hafter.append (?_ : Section.EndsAt 2 (rest.flatMap Stretch.nodes)) (Nat.le_add_right 2 way.length)⟩
      · rw [Release.nodes_ofStretch] at hnodes
        rw [← Layout.nodes_ofNodes, Layout.nodes, hreleases, List.flatMap_append, List.flatMap_cons, hnodes]
        simp
      · -- behind a release stands the heading of another one, which is not the first
        cases rest with
        | nil => exact .nil
        | cons next others =>
            have later : next ∈ (Layout.ofNodes blocks).releases.tail := by
              rw [hreleases]
              cases front <;> simp
            have starts := (Layout.isSound_ofNodes blocks).later next later
            rintro _ ⟨⟩
            simpa [Node.startsRelease, Node.any_headingDepth?] using starts

/-- A section of a document is its heading and everything behind it up to the next heading that is no deeper than the
    level of the section, but for definitions. Where the heading is no deeper than that level either, every heading in
    the section is deeper than it. -/
theorem section_reaches_to_level (h : (ofNodes blocks).section? cursor = some s) :
    (∃ before rest, blocks.filter (!·.isNamed) = before ++ s.heading :: rest ∧
      s.inner = rest.takeWhile fun block => !block.headingDepth?.any (· ≤ cursor.depth)) ∧
    ∀ own ∈ s.heading.headingDepth?, own ≤ cursor.depth →
      ∀ block ∈ s.inner, ∀ depth ∈ block.headingDepth?, own < depth := by
  obtain ⟨graded, -, before, after, hblocks, hafter⟩ := exists_extent h
  have inside : ∀ block ∈ s.inner, (!block.headingDepth?.any (· ≤ cursor.depth)) = true := by
    intro block hblock
    cases hd : block.headingDepth? with
    | none => rfl
    | some depth => simpa using graded.deeper block hblock depth hd
  refine ⟨⟨before, s.inner ++ after, ?_, ?_⟩, fun own _ shallow block hblock depth hd => ?_⟩
  · rw [hblocks, Section.nodes_eq_cons_inner]
    simp
  · rw [List.takeWhile_append_of_pos inside]
    cases after with
    | nil => simp
    | cons next others =>
        have ends : next.headingDepth?.any (· ≤ cursor.depth) := by
          simpa [Node.any_headingDepth?] using hafter next rfl
        simp [ends]
  · exact Nat.lt_of_le_of_lt shallow (graded.deeper block hblock depth hd)

/-- A document in which the groups of a release begin with headings of fourth level. -/
def skippedLevel : Text := Text.ofString "# Changelog\n\n## 1.0.0\n\n#### Added\n\n- x\n\n#### Fixed\n\n- y\n"

/-- That release takes in both headings, which are deeper than its own. -/
theorem section_reaches_to_level_skipped :
    let blocks := (Document.parse skippedLevel).children
    let cursor := Cursor.inside 0 []
    ∃ s, (ofNodes blocks).section? cursor = some s ∧
      (∃ before rest, blocks.filter (!·.isNamed) = before ++ s.heading :: rest ∧
        s.inner = rest.takeWhile fun block => !block.headingDepth?.any (· ≤ cursor.depth)) ∧
      ∀ own ∈ s.heading.headingDepth?, own ≤ cursor.depth →
      ∀ block ∈ s.inner, ∀ depth ∈ block.headingDepth?, own < depth := by
  have found : ((ofNodes (Document.parse skippedLevel).children).section? (.inside 0 [])).isSome := by decide +kernel
  obtain ⟨s, hs⟩ := Option.isSome_iff_exists.mp found
  exact ⟨s, hs, section_reaches_to_level hs⟩

/-- Its first group takes in the second one, the heading of which is as deep as its own. -/
theorem section_takes_in_equal_depth :
    ∃ s, (ofNodes (Document.parse skippedLevel).children).section? (.inside 0 [0]) = some s ∧
      s.heading.headingDepth? = some 4 ∧ ∃ block ∈ s.inner, block.headingDepth? = some 4 := by
  have found : ((ofNodes (Document.parse skippedLevel).children).section? (.inside 0 [0])).map (fun s =>
      (s.heading.headingDepth?, s.inner.filterMap Node.headingDepth?)) = some (some 4, [4]) := by decide +kernel
  obtain ⟨s, hs, depths⟩ := Option.map_eq_some_iff.mp found
  obtain ⟨own, inner⟩ := Prod.mk.inj depths
  exact ⟨s, hs, own, List.mem_filterMap.mp (inner ▸ List.mem_singleton_self 4)⟩

end Outline

end Changelog
