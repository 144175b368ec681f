import Changelog.Proofs.Markdown.Exact

/-! # References and their labels

A link reference that was read from a heading finds its definition by a label. One that is written in full has a label
of its own; every other one is found by the text that it shows.
-/

namespace Changelog

/-- A link reference finds its definition by a label, which is what it shows unless it is written in full. -/
structure Node.RefersBy (node : Node) (label : Text) : Prop where
  identifier : node.identifier = some (normalizeLabel label)
  shown : node.form ≠ some .full → ∀ child, node.soleChild? .text = some child → child.value = some label

namespace Node

variable {node : Node} {label : Text}

theorem identifier_withoutPositions (node : Node) : node.withoutPositions.identifier = node.identifier := by
  cases node
  rfl

theorem exists_of_mem_withoutPositionsAll {nodes : List Node} (h : node ∈ withoutPositionsAll nodes) :
    ∃ placed ∈ nodes, placed.withoutPositions = node := by
  induction nodes with
  | nil => contradiction
  | cons first rest ih =>
      rw [withoutPositionsAll] at h
      rcases List.mem_cons.mp h with rfl | h
      · exact ⟨first, List.mem_cons_self, rfl⟩
      · obtain ⟨placed, hplaced, hnode⟩ := ih h
        exact ⟨placed, List.mem_cons_of_mem first hplaced, hnode⟩

theorem form_withoutPositions (node : Node) : node.withoutPositions.form = node.form := by
  cases node
  rfl

theorem RefersBy.withoutPositions (h : node.RefersBy label) : node.withoutPositions.RefersBy label where
  identifier := by rw [identifier_withoutPositions, h.identifier]
  shown form child hchild := by
    rw [form_withoutPositions] at form
    rw [soleChild?_withoutPositions] at hchild
    obtain ⟨placed, hplaced, rfl⟩ := Option.map_eq_some_iff.mp hchild
    rw [value_withoutPositions]
    exact h.shown form placed hplaced

end Node

namespace Inline

variable {text label rest : Text} {construct : Construct}

/-- What a construct is: a link, code, or a reference, which is read from its label unless it is written in full. -/
inductive Construct.IsKnown (construct : Construct) : Prop where
  | link : construct.node.kind = .link → IsKnown construct
  | code : construct.node.kind = .inlineCode → IsKnown construct
  | reference (label : Text) (form : ReferenceForm) :
    construct.node = reference label form → (form ≠ .full → construct.inner = label) → IsKnown construct

theorem isKnown_of_isRead (h : IsRead text construct) : construct.IsKnown := by
  cases h with
  | code => exact .code rfl
  | link => exact .link rfl
  | @full label second => exact .reference second .full rfl fun short => absurd rfl short
  | @collapsed label => exact .reference label .collapsed rfl fun _ => rfl
  | @shortcut label => exact .reference label .shortcut rfl fun _ => rfl

theorem isKnown_of_findConstruct {before : Text} (h : findConstruct text = (before, some construct)) :
    construct.IsKnown := by
  obtain ⟨after, -, hafter⟩ := exists_of_findConstruct h
  exact isKnown_of_isRead (isRead_of_readConstruct hafter)

theorem value_of_parse_eq_singleton {line : Option Nat} {column : Nat} {node : Node}
    (h : parse line column text = [node]) (kind : node.kind = .text) : node.value = some text := by
  cases hfind : findConstruct text with
  | mk before found =>
      cases found with
      | none =>
          rw [parse_of_none hfind, eq_of_findConstruct hfind, textNodes] at h
          split at h
          · contradiction
          · cases h
            rfl
      | some construct =>
          rw [parse_of_some hfind] at h
          have constructed : ({ construct.node with
              children := parse line (column + before.length + 1) construct.inner
              position := positionAt line (column + before.length)
                (text.length - before.length - construct.rest.length) } : Node) ∈ [node] := by
            rw [← h]
            simp
          rw [← List.mem_singleton.mp constructed] at kind
          obtain ⟨after, -, hread⟩ := exists_of_findConstruct hfind
          exact absurd kind (kind_ne_text_of_isRead (isRead_of_readConstruct hread))

theorem Construct.IsKnown.exists_refersBy (h : construct.IsKnown) {line : Option Nat} {column : Nat}
    {position : Option Position} (kind : construct.node.kind = .linkReference) :
    ∃ label, ({ construct.node with children := parse line column construct.inner, position } : Node).RefersBy label := by
  cases h with
  | link h | code h => simp [h] at kind
  | reference label form h inner =>
      refine ⟨label, ?_, fun hform child hchild => ?_⟩
      · rw [h]
        rfl
      · have short : form ≠ .full := by
          rintro rfl
          exact hform (congrArg Node.form h)
        obtain ⟨hchildren, hkind⟩ := Node.children_of_soleChild? hchild
        rw [← inner short]
        exact value_of_parse_eq_singleton hchildren hkind

theorem exists_refersBy_of_mem_parse {line : Option Nat} {column : Nat} {node : Node} (h : node ∈ parse line column text)
    (kind : node.kind = .linkReference) : ∃ label, node.RefersBy label := by
  have plain : ∀ {column : Nat} {before : Text}, node ∉ textNodes line column before := by
    intro column before hmem
    unfold textNodes at hmem
    split at hmem
    · contradiction
    · rw [List.mem_singleton.mp hmem] at kind
      contradiction
  fun_induction parse line column text with
  | case1 => exact absurd h plain
  | case2 column text before construct hfind start width _ ihRest =>
      rcases List.mem_append.mp h with h | h
      · exact absurd h plain
      · rcases List.mem_cons.mp h with rfl | h
        · exact (isKnown_of_findConstruct hfind).exists_refersBy kind
        · exact ihRest h

end Inline

/-- Every reference in a block of a document refers by a label. -/
theorem Document.exists_refersBy_of_mem_parse {content : Text} {block node : Node}
    (hblock : block ∈ (Document.parse content).children) (hnode : node ∈ block.children)
    (kind : node.kind = .linkReference) : ∃ label, node.RefersBy label := by
  obtain ⟨read, hread, rfl⟩ := List.mem_map.mp hblock
  obtain ⟨column, -, hchildren | hchildren⟩ := (Block.standsIn_of_mem_ofLinesFrom hread).exists_children
  · exact Inline.exists_refersBy_of_mem_parse (hchildren ▸ hnode) kind
  · rw [hchildren] at hnode
    obtain ⟨placed, hplaced, rfl⟩ := Node.exists_of_mem_withoutPositionsAll hnode
    rw [Node.kind_withoutPositions] at kind
    obtain ⟨label, refers⟩ := Inline.exists_refersBy_of_mem_parse hplaced kind
    exact ⟨label, refers.withoutPositions⟩

end Changelog
