import Changelog.Proofs.Markdown.Reference

/-! # Documents are well formed

Every node of a document that was read, however deep it lies, keeps the bounds that nodes have to keep: a level from one
to six, and a place whose lines and columns count from one. A heading always has its level, and a text its value.
-/

namespace Changelog

open LineForm

/-- Do lines and columns count from one? -/
structure Position.IsCounted (p : Position) : Prop where
  startLine : 1 ≤ p.startLine
  startColumn : 1 ≤ p.startColumn
  endLine : 1 ≤ p.endLine
  endColumn : 1 ≤ p.endColumn

namespace Node

/-- Does a node keep the bounds, and does it have what its kind asks for? -/
structure IsLegal (node : Node) : Prop where
  depth : ∀ depth ∈ node.depth, 1 ≤ depth ∧ depth ≤ 6
  position : ∀ p ∈ node.position, p.IsCounted
  leveled : node.kind = .heading → node.depth.isSome
  filled : node.kind = .text → node.value.isSome

/-- Is a node the other one, or does it lie somewhere below it? -/
inductive IsWithin (node : Node) : Node → Prop where
  | self : IsWithin node node
  | inside {parent child : Node} : child ∈ parent.children → IsWithin node child → IsWithin node parent

def IsLegalThroughout (node : Node) : Prop := ∀ inner : Node, inner.IsWithin node → inner.IsLegal

variable {node inner : Node}

theorem IsWithin.trans {outer : Node} (h : inner.IsWithin node) (houter : node.IsWithin outer) : inner.IsWithin outer := by
  induction houter with
  | self => exact h
  | inside hchild _ ih => exact .inside hchild ih

theorem isLegalThroughout_iff :
    node.IsLegalThroughout ↔ node.IsLegal ∧ ∀ child ∈ node.children, child.IsLegalThroughout := by
  constructor
  · exact fun h => ⟨h node .self, fun child hchild inner hinner => h inner (.inside hchild hinner)⟩
  · rintro ⟨own, children⟩ inner hinner
    cases hinner with
    | self => exact own
    | inside hchild hinner => exact children _ hchild inner hinner

theorem IsLegal.withoutPositions (h : node.IsLegal) : node.withoutPositions.IsLegal := by
  obtain ⟨depth, -, leveled, filled⟩ := h
  cases node
  exact ⟨depth, nofun, leveled, filled⟩

theorem exists_of_isWithin_withoutPositions (h : inner.IsWithin node.withoutPositions) :
    ∃ placed : Node, placed.IsWithin node ∧ placed.withoutPositions = inner := by
  generalize hnode : node.withoutPositions = unplaced at h
  induction h generalizing node with
  | self => exact ⟨node, .self, hnode⟩
  | inside hchild _ ih =>
      rw [← hnode, children_withoutPositions] at hchild
      obtain ⟨child, hmem, rfl⟩ := exists_of_mem_withoutPositionsAll hchild
      obtain ⟨placed, hplaced, heq⟩ := ih rfl
      exact ⟨placed, .inside hmem hplaced, heq⟩

theorem IsLegalThroughout.withoutPositions (h : node.IsLegalThroughout) : node.withoutPositions.IsLegalThroughout := by
  intro inner hinner
  obtain ⟨placed, hplaced, rfl⟩ := exists_of_isWithin_withoutPositions hinner
  exact (h placed hplaced).withoutPositions

end Node

/-! ## Inline nodes -/

namespace Inline

variable {text label rest : Text} {construct : Construct} {line : Option Nat} {column : Nat} {node : Node}

/-- What a construct is, and where its label comes from. -/
structure Construct.IsTakenFrom (text : Text) (construct : Construct) : Prop where
  unleveled : construct.node.depth = none
  kind : construct.node.kind ∈ [Kind.link, Kind.linkReference, Kind.inlineCode]
  inner : construct.inner <:+: text

theorem isTakenFrom_of_isRead (h : IsRead text construct) : construct.IsTakenFrom text := by
  cases h with
  | code => exact ⟨rfl, by simp [codeNode], List.nil_infix⟩
  | link => exact ⟨rfl, by simp [linkNode], List.infix_cons (List.prefix_append _ _).isInfix⟩
  | full | collapsed | shortcut =>
      exact ⟨rfl, by simp [reference], List.infix_cons (List.prefix_append _ _).isInfix⟩

theorem isTakenFrom_of_findConstruct {before : Text} (h : findConstruct text = (before, some construct)) :
    construct.IsTakenFrom text := by
  obtain ⟨after, rfl, hafter⟩ := exists_of_findConstruct h
  obtain ⟨unleveled, kind, inner⟩ := isTakenFrom_of_isRead (isRead_of_readConstruct hafter)
  exact ⟨unleveled, kind, inner.trans (List.suffix_append before after).isInfix⟩

theorem isCounted_positionAt (hline : ∀ l ∈ line, 1 ≤ l) (hcolumn : 1 ≤ column) (width : Nat) :
    ∀ p ∈ positionAt line column width, p.IsCounted := by
  intro p hp
  obtain ⟨l, hl, rfl⟩ := Option.map_eq_some_iff.mp hp
  exact ⟨hline l hl, hcolumn, hline l hl, Nat.le_add_right_of_le hcolumn⟩

theorem isLegalThroughout_of_mem_textNodes (hline : ∀ l ∈ line, 1 ≤ l) (hcolumn : 1 ≤ column)
    (h : node ∈ textNodes line column text) : node.IsLegalThroughout := by
  unfold textNodes at h
  split at h
  · contradiction
  · obtain rfl := List.mem_singleton.mp h
    refine Node.isLegalThroughout_iff.mpr ⟨⟨nofun, isCounted_positionAt hline hcolumn _, nofun, fun _ => rfl⟩, ?_⟩
    exact fun child hchild => absurd hchild List.not_mem_nil

/-- The nodes that are read from a text are legal, if it stands in a line and at a column that count from one. -/
theorem isLegalThroughout_parse (hline : ∀ l ∈ line, 1 ≤ l) (hcolumn : 1 ≤ column) (text : Text) :
    ∀ node ∈ parse line column text, node.IsLegalThroughout := by
  fun_induction parse line column text with
  | case1 => exact fun node => isLegalThroughout_of_mem_textNodes hline hcolumn
  | case2 column text before construct hfind start width ihInner ihRest =>
      have hstart : 1 ≤ start := Nat.le_add_right_of_le hcolumn
      have taken := isTakenFrom_of_findConstruct hfind
      have kind := taken.kind
      simp only [List.forall_mem_append, List.forall_mem_cons]
      refine ⟨fun node => isLegalThroughout_of_mem_textNodes hline hcolumn, ?_, ihRest (Nat.le_add_right_of_le hstart)⟩
      refine Node.isLegalThroughout_iff.mpr ⟨⟨?_, isCounted_positionAt hline hstart width, ?_, ?_⟩,
        ihInner (Nat.le_add_right_of_le hstart)⟩
      · simp [taken.unleveled]
      · rintro hkind
        simp [show construct.node.kind = .heading from hkind] at kind
      · rintro hkind
        simp [show construct.node.kind = .text from hkind] at kind

end Inline

/-! ## Blocks -/

namespace Block

variable {lines : List Text} {number : Nat} {block : Block}

theorem isCounted_span {first : Nat} (hfirst : 1 ≤ first) (lines : List Text) : (span first lines).IsCounted := by
  unfold span
  split
  · exact ⟨hfirst, le_rfl, hfirst, le_rfl⟩
  next hlast =>
    have filled : lines ≠ [] := by
      rintro rfl
      contradiction
    have : 1 ≤ lines.length := List.length_pos_iff.mpr filled
    exact ⟨hfirst, le_rfl, by dsimp only; omega, Nat.le_add_left 1 _⟩

theorem StandsIn.isCounted (h : StandsIn number lines block) (counted : 1 ≤ number) : 1 ≤ block.first := by
  obtain ⟨before, _, _, _, _, hfirst, _⟩ := h
  exact hfirst ▸ Nat.le_add_right_of_le counted

theorem kind_node_ne_text (block : Block) : block.node.kind ≠ .text := by
  rw [kind_node]
  cases block.form <;> nofun

theorem StandsIn.isLegalThroughout (h : StandsIn number lines block) (counted : 1 ≤ number) : block.node.IsLegalThroughout := by
  have hfirst : ∀ l ∈ some block.first, 1 ≤ l := by
    rintro l ⟨⟩
    exact h.isCounted counted
  refine Node.isLegalThroughout_iff.mpr ⟨⟨?_, ?_, fun heading => ?_, fun text => absurd text (kind_node_ne_text block)⟩, ?_⟩
  · rcases h.depth_node with ⟨-, depth, hdepth, bounds⟩ | ⟨-, hdepth⟩
    · rw [hdepth]
      rintro _ ⟨⟩
      exact bounds
    · simp [hdepth]
  · rw [Document.position_node]
    rintro p ⟨⟩
    exact isCounted_span (h.isCounted counted) block.lines
  · obtain ⟨-, depth, hdepth, -⟩ := h.depth_node.resolve_right fun other => other.1 heading
    rw [hdepth]
    rfl
  · obtain ⟨column, positive, hchildren⟩ := h.exists_children
    have children := Inline.isLegalThroughout_parse hfirst positive block.content
    rcases hchildren with hchildren | hchildren
    · rw [hchildren]
      exact children
    · rw [hchildren]
      intro child hchild
      obtain ⟨placed, hplaced, rfl⟩ := Node.exists_of_mem_withoutPositionsAll hchild
      exact (children placed hplaced).withoutPositions

end Block

theorem Document.isLegal_of_isWithin_parse {content : Text} {node : Node} (h : node.IsWithin (Document.parse content)) :
    node.IsLegal := by
  have place : ∀ p ∈ (Document.parse content).position, p.IsCounted := by
    rintro p ⟨⟩
    exact Block.isCounted_span le_rfl _
  have whole : (Document.parse content).IsLegalThroughout := by
    refine Node.isLegalThroughout_iff.mpr ⟨⟨nofun, place, nofun, nofun⟩, fun child hchild => ?_⟩
    obtain ⟨block, hblock, rfl⟩ := List.mem_map.mp hchild
    exact (Block.standsIn_of_mem_ofLinesFrom hblock).isLegalThroughout le_rfl
  exact whole node h

end Changelog
