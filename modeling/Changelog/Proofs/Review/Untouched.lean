import Changelog.Proofs.Markdown.Reprint
import Changelog.Proofs.Review.Addition
import Changelog.Proofs.Review.Twice
import Changelog.Proofs.Text.Source

/-! # Blocks that are left alone

A block that is not interpreted keeps its lines. It stands in front of the releases or inside one, it stays there
whatever is added, sorted, filled and linked, and it is printed as it was kept. What was kept is a piece of the text, but
every line boundary inside it became a line feed.
-/

namespace Changelog

namespace Node

/-- The kinds of blocks that keep their source. -/
def keptKinds : List Kind := [.code, .list, .paragraph, .blockquote, .thematicBreak, .html]

theorem plain_of_mem_keptKinds {node : Node} (kept : node.kind ∈ keptKinds) :
    node.isNamed = false ∧ node.headingDepth? = none := by
  have other : node.kind ≠ .definition ∧ node.kind ≠ .heading := by
    constructor <;> intro hkind <;> rw [hkind] at kept <;> exact absurd kept (by decide)
  simp [isNamed, headingDepth?, other]

end Node

namespace Block

variable {number : Nat} {lines : List Text} {block : Block}

theorem keptKind?_of_kind (h : block.node.kind ∈ Node.keptKinds) : ∃ kind, block.form.keptKind? = some kind := by
  rw [kind_node] at h
  cases hform : block.form with
  | atx | setext | definition =>
      rw [hform] at h
      exact absurd h (by simp [BlockForm.kind, Node.keptKinds])
  | fence | thematicBreak | list | blockquote | html | indentedCode | paragraph => exact ⟨_, rfl⟩

theorem StandsIn.isInfix (h : StandsIn number lines block) : block.lines ≠ [] ∧ block.lines <:+: lines := by
  obtain ⟨before, line, rest, post, rfl, _, hlines, _⟩ := h
  refine ⟨by simp [hlines], before, post, ?_⟩
  simp [hlines]

end Block

namespace Document

variable {text : Text} {node : Node} {nodes : List Node}

/-- A block that keeps its source is printed as a piece of the text, but for the boundaries in it. -/
theorem exists_source_of_mem_parse (hnode : node ∈ (parse text).children) (kept : node.kind ∈ Node.keptKinds) :
    ∃ source, source <:+: text ∧ node.value = some (Text.fed source) ∧ node.blockText = Text.fed source := by
  obtain ⟨block, hblock, rfl⟩ := List.mem_map.mp hnode
  obtain ⟨hne, hlines⟩ := (Block.standsIn_of_mem_ofLinesFrom hblock).isInfix
  obtain ⟨source, hsource, hfed⟩ := Text.exists_fed_of_isInfix hne hlines
  obtain ⟨kind, hkind⟩ := Block.keptKind?_of_kind kept
  refine ⟨source, hsource, ?_, ?_⟩
  · rw [Block.node_of_keptKind? hkind, ← hfed]
    rfl
  · rw [Block.node_of_keptKind? hkind, Block.blockText_opaqueNode hkind, hfed]

theorem infix_blocksText (h : node ∈ nodes) : node.blockText <:+: blocksText nodes := by
  induction nodes with
  | nil => contradiction
  | cons first rest ih =>
      cases rest with
      | nil =>
          rw [List.mem_singleton.mp h]
          exact List.infix_rfl
      | cons next rest =>
          rw [blocksText]
          rcases List.mem_cons.mp h with rfl | h
          · exact ((List.prefix_append _ _).trans (List.prefix_append _ _)).isInfix
          · exact (ih h).trans (List.suffix_append _ _).isInfix

theorem infix_print {root : Node} (h : node ∈ root.children) : node.blockText <:+: print root := by
  have filled : root.children.isEmpty = false := by simpa using List.ne_nil_of_mem h
  rw [print, filled]
  exact (infix_blocksText h).trans (List.prefix_append _ _).isInfix

end Document

namespace Outline

variable {o : Outline} {block : Node} {blocks : List Node}

/-- Does a block stand in front of the releases, or in one of them below its heading? -/
def Holds (o : Outline) (block : Node) : Prop := block ∈ o.content ∨ ∃ r ∈ o.releases, block ∈ r.stretch.blocks

theorem holds_ofNodes (hblock : block ∈ blocks) (unnamed : block.isNamed = false) (level : block.headingDepth? = none) :
    (ofNodes blocks).Holds block := by
  have sound := Layout.isSound_ofNodes blocks
  have placed : block ∈ (Layout.ofNodes blocks).nodes := by
    rw [Layout.nodes_ofNodes]
    exact List.mem_filter.mpr ⟨hblock, by simp [unnamed]⟩
  rcases List.mem_append.mp placed with placed | placed
  · rcases List.mem_append.mp placed with htitle | hpreamble
    · have := sound.title block (Option.mem_toList.mp htitle)
      rw [level] at this
      contradiction
    · left
      rw [ofNodes_eq_ofLayout]
      exact hpreamble
  · obtain ⟨s, hs, hblock⟩ := List.mem_flatMap.mp placed
    rcases List.mem_cons.mp hblock with rfl | hblock
    · have := sound.headingDepth?_isSome hs
      rw [level] at this
      contradiction
    · right
      rw [← List.zipIdx_map_fst 0 (Layout.ofNodes blocks).releases] at hs
      obtain ⟨⟨s, i⟩, hi, rfl⟩ := List.mem_map.mp hs
      rw [Review.releases_ofNodes]
      refine ⟨Review.placed (s, i), List.mem_map_of_mem hi, ?_⟩
      rw [Review.placed, Release.stretch_ofStretch]
      exact hblock

theorem Holds.mem_nodes (h : o.Holds block) : block ∈ o.nodes := by
  unfold nodes
  rcases h with h | ⟨r, hr, h⟩
  · simp [h]
  · have hbody : block ∈ r.body.nodes := by
      rw [← Release.nodes_stretch]
      exact List.mem_cons_of_mem _ h
    simp only [List.mem_append, List.mem_flatMap]
    exact Or.inl (Or.inr ⟨r, hr, hbody⟩)

end Outline

namespace Review

variable {env : Environment} {path : Option Path} {options : Options} {root : Node} {project : Project} {fetch : Fetch}
  {o arranged fixed : Outline} {block : Node} {content : Text}

open Outline (Holds)

/-- What is added stands behind what was there, and sorting moves whole releases. -/
theorem holds_of_arrange (h : o.Holds block) (harranged : (arrange env path options project root o).outcome = .ok arranged) :
    arranged.Holds block := by
  obtain ⟨added, sorted, hadded, hsorted, rfl⟩ := outcome_arrange_eq_ok.mp harranged
  have titled : o.setTitle.Holds block := by
    rw [setTitle_eq]
    exact h
  have hadded : added.Holds block := by
    rcases of_addRequested hadded with rfl | ⟨_, _, -, -, -, -, rfl⟩
    · exact titled
    · exact titled.imp_right fun ⟨r, hr, hblock⟩ => ⟨r, List.mem_append_left _ hr, hblock⟩
  exact hadded.imp_right fun ⟨r, hr, hblock⟩ => ⟨r, (env.sorting.perm hsorted).mem_iff.mpr hr, hblock⟩

/-- A release that something stands in is not filled, and it keeps what stands in it. -/
theorem IsBackfilled.mem_blocks {r r' : Release} (h : IsBackfilled project fetch r r') (hblock : block ∈ r.stretch.blocks) :
    block ∈ (relinked r').stretch.blocks := by
  rcases h.isRewritten.blocks with same | ⟨empty, -⟩
  · rwa [same]
  · rw [empty] at hblock
    contradiction

theorem holds_of_reviewOutline (fix : options.fix) (h : o.Holds block)
    (hfixed : (reviewOutline env path options project fetch root o).outcome = .ok fixed) : fixed.Holds block := by
  obtain ⟨arranged, reviewed, definitions, harranged, hreviewed, -, rfl⟩ := (outcome_reviewOutline_eq_ok fix).mp hfixed
  refine (holds_of_arrange h harranged).imp_right fun ⟨r, hr, hblock⟩ => ?_
  -- relating the releases changes none of their blocks
  have related : r.stretch ∈ (Release.relate arranged.releases).map Release.stretch := by
    rw [Release.map_relate (fun _ _ => rfl)]
    exact List.mem_map_of_mem hr
  obtain ⟨s, hs, hstretch⟩ := List.mem_map.mp related
  obtain ⟨s', hs', hfilled⟩ := exists_left_of_forall₂ (forall₂_isBackfilled hreviewed).flip hs
  exact ⟨relinked s', List.mem_map_of_mem hs', hfilled.mem_blocks (hstretch ▸ hblock)⟩

theorem infix_content_of_text (fix : options.fix) (hpath : isReviewed path)
    (hblock : block ∈ (Document.parse content).children) (unnamed : block.isNamed = false)
    (level : block.headingDepth? = none) {report : Report}
    (h : (text env path options content).outcome = .ok report) : block.blockText <:+: report.content := by
  simp only [text] at h
  cases hrun : (run env path options (Document.parse content)).outcome with
  | error fault => simp [hrun, Except.map] at h
  | ok result =>
      obtain ⟨-, project, fixed, -, hfixed, rfl⟩ := exists_fixed_of_run fix hpath hrun
      have held := holds_of_reviewOutline fix (Outline.holds_ofNodes hblock unnamed level) hfixed
      rw [hrun] at h
      obtain rfl := Except.ok.inj h
      exact Document.infix_print held.mem_nodes

/-- What is kept of a block that is not interpreted: a piece of the text with a line feed for every line boundary in it.
    This is a piece of the text if line feeds are the only boundaries of the text, or if it is a single line, and
    whatever else fixing does, the fixed text holds it. -/
theorem text_fix_keeps_source {node : Node} (hnode : node ∈ (Document.parse content).children)
    (kept : node.kind ∈ Node.keptKinds) :
    ∃ value source, node.value = some value ∧ source <:+: content ∧ value = Text.fed source ∧
      (content.IsFed ∨ value.IsUnbroken → value <:+: content) ∧
      ∀ env path options report, options.fix → isReviewed path →
        (text env path options content).outcome = .ok report → value <:+: report.content := by
  obtain ⟨source, hsource, hvalue, htext⟩ := Document.exists_source_of_mem_parse hnode kept
  refine ⟨Text.fed source, source, hvalue, hsource, rfl, ?_, fun env path options report fix hpath h => ?_⟩
  · rintro (fed | unbroken)
    · rwa [Text.fed_of_isFed (fed.of_isInfix hsource)]
    · rwa [Text.fed_of_isFed (Text.isUnbroken_of_fed unbroken).isFed]
  · obtain ⟨unnamed, level⟩ := Node.plain_of_mem_keptKinds kept
    rw [← htext]
    exact infix_content_of_text fix hpath hnode unnamed level h

section

open Text (ofString)

/-- A changelog with a list of two lines, which some boundary separates. -/
def twoLines (boundary : Text) : Text :=
  ofString "# Changelog\n\n## 1.0.0 - 2020-01-01\n\n### Added\n\n- a" ++ boundary ++ ofString "  b\n"

def twoLinesNode : Node :=
  { kind := .list, value := some (ofString "- a\n  b")
    position := some { startLine := 7, startColumn := 1, endLine := 8, endColumn := 4 } }

theorem text_fix_keeps_source_sample :
    twoLinesNode ∈ (Document.parse (twoLines ['\n'])).children ∧ twoLinesNode.kind ∈ Node.keptKinds ∧
      (twoLines ['\n']).IsFed ∧
      ((text sampleEnvironment none sampleOptions (twoLines ['\n'])).outcome.map Report.content) = .ok (twoLines ['\n']) ∧
      ∃ value source, twoLinesNode.value = some value ∧ source <:+: twoLines ['\n'] ∧ value = Text.fed source ∧
        ((twoLines ['\n']).IsFed ∨ value.IsUnbroken → value <:+: twoLines ['\n']) ∧
        ∀ env path options report, options.fix → isReviewed path →
          (text env path options (twoLines ['\n'])).outcome = .ok report → value <:+: report.content := by
  have fixed := @outcome_text_of_isOrdered sampleEnvironment none sampleOptions sampleProject (twoLines ['\n'])
    (twoLines ['\n']) rfl rfl rfl found_sample (by decide +kernel)
  have hnode : twoLinesNode ∈ (Document.parse (twoLines ['\n'])).children := by decide +kernel
  exact ⟨hnode, by decide, by decide, by rw [fixed]; rfl, text_fix_keeps_source hnode (by decide)⟩

/-- A line tabulation ends a line too. Fixing writes a line feed in its place, though nothing is there to be fixed. -/
theorem text_fix_breaks_line :
    twoLinesNode ∈ (Document.parse (twoLines ['\x0b'])).children ∧ twoLinesNode.kind = .list ∧
      ¬ofString "- a\n  b" <:+: twoLines ['\x0b'] ∧
      ((text sampleEnvironment none sampleOptions (twoLines ['\x0b'])).outcome.map Report.content) = .ok (twoLines ['\n']) := by
  have fixed := @outcome_text_of_isOrdered sampleEnvironment none sampleOptions sampleProject (twoLines ['\x0b'])
    (twoLines ['\n']) rfl rfl rfl found_sample (by decide +kernel)
  exact ⟨by decide +kernel, rfl, by decide +kernel, by rw [fixed]; rfl⟩

end

end Review

end Changelog
