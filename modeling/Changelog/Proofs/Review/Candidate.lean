import Changelog.Proofs.Markdown.Bounds
import Changelog.Proofs.Outline.Lossless
import Changelog.Proofs.Review.Linked
import Changelog.Proofs.Review.Written
import Changelog.Proofs.Version.Candidate

/-! # Versions and keys of a document

The version of a release is a stretch of the text of its heading, and the key of a definition comes from its label. So
there is no candidate with too many digits among them if there is none in the document.
-/

namespace Changelog

open Version LineForm

/-! ## Where a version stands -/

namespace ReleaseHeading

variable {text version : Text} {nodes after : List Node} {kind : Kind} {line : Option Nat} {column : Nat}

theorem version_ofPlain (h : (ofPlain text).version = some version) : version = unreleased ∨ version <:+: text := by
  unfold ofPlain at h
  split at h
  · exact Or.inl (Option.some.inj h).symm
  · split at h
    next hsplit =>
      obtain rfl := Option.some.inj h
      exact Or.inr (Text.infix_of_mem_splitAll (hsplit ▸ List.mem_cons_self))
    next hsplit =>
      obtain rfl := Option.some.inj h
      exact Or.inr (Text.infix_of_mem_splitAll (hsplit ▸ List.mem_cons_self))
    next => contradiction

theorem exists_of_version (h : (ofNodes nodes).version = some version) :
    (∃ node, nodes = [node] ∧ node.kind = .text ∧ (ofPlain (node.value.getD [])).version = some version) ∨
      ∃ first after child, nodes = first :: after ∧ (first.kind = .link ∨ first.kind = .linkReference) ∧
        first.soleChild? .text = some child ∧ (version = unreleased ∨ version = child.value.getD []) := by
  cases nodes with
  | nil => contradiction
  | cons first after =>
      rw [ofNodes] at h
      split at h
      next plain =>
        simp only [Bool.and_eq_true, decide_eq_true_eq, List.isEmpty_iff] at plain
        obtain ⟨kind, rfl⟩ := plain
        exact Or.inl ⟨first, rfl, kind, h⟩
      next =>
        split at h
        next linked =>
          split at h
          next child hchild =>
            refine Or.inr ⟨first, after, child, rfl, by simpa using linked, hchild, ?_⟩
            exact (version_ofLinked h).symm.imp_left And.left
          next => contradiction
        next => contradiction

/-- The version that a heading names is a stretch of its text. -/
theorem version_of_parse (h : (ofNodes (Inline.parse line column text)).version = some version) :
    version = unreleased ∨ version <:+: text := by
  rcases exists_of_version h with ⟨node, hnodes, kind, plain⟩ | ⟨first, after, child, hnodes, kind, hchild, shown⟩
  · rw [Inline.value_of_parse_eq_singleton hnodes kind] at plain
    exact version_ofPlain plain
  · have unplain : ∀ {before rest}, Inline.textNodes line column before ++ rest = first :: after → before = [] := by
      intro before rest heq
      unfold Inline.textNodes at heq
      split at heq
      next empty => exact List.isEmpty_iff.mp empty
      next =>
        rw [← (List.cons.inj heq).1] at kind
        simp [Node.ofText] at kind
    cases hfind : Inline.findConstruct text with
    | mk before found =>
        cases found with
        | none =>
            rw [Inline.parse_of_none hfind, ← List.append_nil (Inline.textNodes line column before)] at hnodes
            rw [unplain hnodes] at hnodes
            contradiction
        | some construct =>
            rw [Inline.parse_of_some hfind] at hnodes
            obtain rfl := unplain hnodes
            obtain ⟨hchildren, hkind⟩ := Node.children_of_soleChild? hchild
            rw [← (List.cons.inj hnodes).1] at hchildren
            refine shown.imp_right ?_
            rintro rfl
            rw [Inline.value_of_parse_eq_singleton hchildren hkind]
            exact (Inline.isTakenFrom_of_findConstruct hfind).inner

end ReleaseHeading

/-! ## Blocks -/

theorem LineForm.label_infix_of_definition? {line : Text} {parts : Definition} (h : definition? line = some parts) :
    parts.label <:+: line := by
  obtain ⟨target, hmarked, -⟩ := exists_of_definition? h
  have own : parts.label <:+: '[' :: (parts.label ++ ']' :: ':' :: target) :=
    List.infix_cons (List.prefix_append _ _).isInfix
  exact own.trans (dropIndent?_suffix hmarked).isInfix

theorem hasShortCandidates_unreleased : HasShortCandidates unreleased := hasShortCandidates_of_length (by decide)

namespace Block

variable {number : Nat} {lines : List Text} {block : Block} {version key : Text}

theorem StandsIn.hasShortCandidates_version (h : StandsIn number lines block) (short : ∀ line ∈ lines, HasShortCandidates line)
    (hversion : (ReleaseHeading.ofNodes block.node.children).version = some version) : HasShortCandidates version := by
  have own : ∀ line ∈ block.lines, HasShortCandidates line := fun line hline => short line (h.mem_lines hline)
  have content : HasShortCandidates block.content := by
    rcases h.content_cases with ⟨line, hline, stretch⟩ | joined
    · exact (own line hline).of_isInfix stretch
    · rw [joined]
      refine HasShortCandidates.join_space (List.forall_mem_map.mpr fun line hline => ?_)
      exact (own line (List.dropLast_subset _ hline)).of_isInfix (Text.strip_isInfix line)
  obtain ⟨column, said⟩ : ∃ column,
      (ReleaseHeading.ofNodes (Inline.parse (some block.first) column block.content)).version = some version := by
    obtain ⟨column, -, hchildren | hchildren⟩ := h.exists_children
    · exact ⟨column, hchildren ▸ hversion⟩
    · rw [hchildren, ReleaseHeading.ofNodes_withoutPositions] at hversion
      exact ⟨column, hversion⟩
  rcases ReleaseHeading.version_of_parse said with rfl | stretch
  · exact hasShortCandidates_unreleased
  · exact content.of_isInfix stretch

theorem StandsIn.hasShortCandidates_key (h : StandsIn number lines block) (short : ∀ line ∈ lines, HasShortCandidates line)
    (hkey : block.node.key? = some key) : HasShortCandidates key := by
  have named : block.node.isNamed := by rw [Node.isNamed_eq_isSome_key?, hkey]; rfl
  obtain ⟨parts, hform⟩ := exists_parts_of_kind (Node.kind_of_isNamed named)
  obtain ⟨line, rest, hlines, hread⟩ := h.exists_definition? hform
  have own : HasShortCandidates line := short line (h.mem_lines (hlines ▸ List.mem_cons_self))
  rw [Block.node, hform] at hkey
  obtain rfl := Option.some.inj hkey
  exact (own.of_isInfix (label_infix_of_definition? hread)).normalizeLabel.lowercase

end Block

/-! ## The whole document -/

namespace Outline

variable {content version key : Text} {r : Release}

theorem hasShortCandidates_lines (h : HasShortCandidates content) : ∀ line ∈ Text.lines content, HasShortCandidates line :=
  fun _ hline => h.of_isInfix (Text.infix_of_mem_lines hline)

theorem hasShortCandidates_version (h : HasShortCandidates content)
    (hr : r ∈ (ofNodes (Document.parse content).children).releases) (hversion : r.version = some version) :
    HasShortCandidates version := by
  have hheading := Review.mem_of_mem_release hr List.mem_cons_self
  obtain ⟨block, hblock, hnode⟩ := List.mem_map.mp hheading
  have placed := Review.isPlaced_of_mem_ofNodes hr
  refine (Block.standsIn_of_mem_ofLinesFrom hblock).hasShortCandidates_version (hasShortCandidates_lines h) ?_
  rw [hnode]
  exact (congrArg ReleaseHeading.version placed.read).symm.trans hversion

theorem hasShortCandidates_key (h : HasShortCandidates content)
    (hkey : key ∈ (ofNodes (Document.parse content).children).definitions.keys) : HasShortCandidates key := by
  rw [(nodes_ofNodes_lossless _).1, List.mem_eraseDups] at hkey
  obtain ⟨node, hnode, hkey⟩ := List.mem_filterMap.mp hkey
  obtain ⟨block, hblock, rfl⟩ := List.mem_map.mp hnode
  exact (Block.standsIn_of_mem_ofLinesFrom hblock).hasShortCandidates_key (hasShortCandidates_lines h) hkey

end Outline

end Changelog
