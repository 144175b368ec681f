import Changelog.Proofs.Markdown.Bounds
import Changelog.Proofs.Markdown.Constructs

/-! # Inline nodes and their columns

The inline nodes of a text stand side by side from its first column to its last. Text is the piece of the whole that stands
at its place, never next to other text, and the children of a link or a reference stand between its brackets. None of
them holds another one.
-/

namespace Changelog

/-! ## Standing in a line -/

namespace Node

/-- Nodes that stand side by side in a line, from one column up to another, with at least one character each. -/
inductive SideBySide (line : Nat) : Nat → Nat → List Node → Prop where
  | nil {column : Nat} : SideBySide line column column []
  | cons {start middle stop : Nat} {node : Node} {nodes : List Node} : node.position = some ⟨line, start, line, middle⟩ →
      start < middle → SideBySide line middle stop nodes → SideBySide line start stop (node :: nodes)

theorem SideBySide.append {line start middle stop : Nat} {nodes others : List Node} (h : SideBySide line start middle nodes)
    (later : SideBySide line middle stop others) : SideBySide line start stop (nodes ++ others) := by
  induction h with
  | nil => exact later
  | cons place filled _ ih => exact .cons place filled (ih later)

/-- No two texts are neighbours. -/
def AreApart (nodes : List Node) : Prop := nodes.IsChain fun a b => a.kind = .text → b.kind ≠ .text

def IsLink (node : Node) : Prop := node.kind = .link ∨ node.kind = .linkReference

/-- How a node stands in a text that begins at a column of a line. -/
structure StandsAt (node : Node) (line column : Nat) (text : Text) : Prop where
  value : node.kind = .text → ∃ before value after, text = before ++ (value ++ after) ∧ node.value = some value ∧
    node.position = some ⟨line, column + before.length, line, column + before.length + value.length⟩
  children : ∃ first last start stop, node.position = some ⟨line, first, line, last⟩ ∧ first ≤ start ∧ stop ≤ last ∧
    SideBySide line start stop node.children
  apart : AreApart node.children
  unlinked : node.IsLink → ∀ child ∈ node.children, ∀ inner : Node, inner.IsWithin child → ¬inner.IsLink

end Node

namespace Inline

open Node

variable {text label before taken rest : Text} {construct : Construct} {line column : Nat} {node : Node}

/-! ## What a construct takes -/

theorem exists_taken_of_isRead (h : IsRead text construct) :
    ∃ c back, text = (c :: (construct.inner ++ back)) ++ construct.rest ∧
      (construct.node.IsLink → IsLabel construct.inner ∧ c = '[' ∧ ∃ others, back = ']' :: others) := by
  cases h with
  | @code k code rest positive _ _ =>
      obtain ⟨k, rfl⟩ : ∃ n, k = n + 1 := ⟨k - 1, by omega⟩
      refine ⟨'\x60', ticks k ++ (code ++ ticks (k + 1)), by simp [ticks, List.replicate_succ], ?_⟩
      simp [IsLink, codeNode]
  | link hlabel htarget =>
      obtain ⟨front, rfl, -⟩ := takes_of_readTarget htarget
      exact ⟨'[', ']' :: '(' :: (front ++ [')']), by simp, fun _ => ⟨hlabel, rfl, _, rfl⟩⟩
  | @full _ second _ hlabel => exact ⟨'[', ']' :: '[' :: (second ++ [']']), by simp, fun _ => ⟨hlabel, rfl, _, rfl⟩⟩
  | collapsed hlabel => exact ⟨'[', [']', '[', ']'], by simp, fun _ => ⟨hlabel, rfl, _, rfl⟩⟩
  | shortcut hlabel => exact ⟨'[', [']'], by simp, fun _ => ⟨hlabel, rfl, _, rfl⟩⟩

def Construct.nodeAt (line : Option Nat) (column width : Nat) (construct : Construct) : Node :=
  { construct.node with
    children := parse line (column + 1) construct.inner
    position := positionAt line column width }

theorem parse_of_taken (h : findConstruct (before ++ (taken ++ construct.rest)) = (before, some construct))
    (line : Option Nat) (column : Nat) :
    parse line column (before ++ (taken ++ construct.rest)) =
      textNodes line column before ++ construct.nodeAt line (column + before.length) taken.length ::
        parse line (column + before.length + taken.length) construct.rest := by
  have width : (before ++ (taken ++ construct.rest)).length - before.length - construct.rest.length = taken.length := by
    rw [List.length_append, List.length_append]
    omega
  rw [parse_of_some h, width]
  rfl

/-! ## Nodes side by side -/

theorem sideBySide_textNodes (text : Text) : SideBySide line column (column + text.length) (textNodes (some line) column text) := by
  unfold textNodes
  split
  next empty =>
    rw [List.isEmpty_iff.mp empty]
    exact .nil
  next filled =>
    have width : 0 < text.length := List.length_pos_iff.mpr (by simpa using filled)
    exact .cons rfl (Nat.lt_add_of_pos_right width) .nil

theorem sideBySide_parse (line column : Nat) (text : Text) :
    SideBySide line column (column + text.length) (parse (some line) column text) := by
  induction text using construct_induction generalizing column with
  | plain text hfind =>
      rw [parse_of_none hfind]
      exact sideBySide_textNodes text
  | found before after construct hfind hread _ ih =>
      obtain ⟨c, back, rfl, -⟩ := exists_taken_of_isRead hread
      have later := ih (column + before.length + (c :: (construct.inner ++ back)).length)
      rw [parse_of_taken hfind, List.length_append, List.length_append, ← Nat.add_assoc, ← Nat.add_assoc]
      exact (sideBySide_textNodes before).append (.cons rfl (Nat.lt_add_of_pos_right (Nat.succ_pos _)) later)

theorem areApart_textNodes_append {line : Option Nat} {nodes : List Node} (h : AreApart (node :: nodes))
    (kind : node.kind ≠ .text) : AreApart (textNodes line column text ++ node :: nodes) := by
  unfold textNodes
  split
  · exact h
  · refine List.isChain_cons.mpr ⟨?_, h⟩
    rintro next ⟨⟩ _
    exact kind

theorem areApart_parse (line : Option Nat) (column : Nat) (text : Text) : AreApart (parse line column text) := by
  induction text using construct_induction generalizing column with
  | plain text hfind =>
      rw [parse_of_none hfind]
      unfold textNodes
      split
      · exact .nil
      · exact .singleton _
  | found before after construct hfind hread _ ih =>
      have kind := kind_ne_text_of_isRead hread
      obtain ⟨c, back, rfl, -⟩ := exists_taken_of_isRead hread
      rw [parse_of_taken hfind]
      exact areApart_textNodes_append (List.isChain_cons.mpr ⟨fun _ _ text => absurd text kind, ih _⟩) kind

/-! ## Nodes at every depth -/

/-- A text, or a construct, that stands somewhere in a text which begins at a column of a line. -/
inductive LiesIn (line column : Nat) : Text → Node → Prop where
  | text {before value after : Text} : LiesIn line column (before ++ (value ++ after))
      { Node.ofText value with position := positionAt (some line) (column + before.length) value.length }
  | construct {before taken after : Text} {construct : Construct} : IsRead (taken ++ construct.rest) construct →
      LiesIn line column (before ++ (taken ++ after)) (construct.nodeAt (some line) (column + before.length) taken.length)

theorem LiesIn.mono {front : Text} (h : LiesIn line (column + front.length) text node) (back : Text) :
    LiesIn line column (front ++ (text ++ back)) node := by
  cases h with
  | @text before value after =>
      have whole : front ++ ((before ++ (value ++ after)) ++ back) = (front ++ before) ++ (value ++ (after ++ back)) := by simp
      rw [whole, Nat.add_assoc, ← List.length_append]
      exact .text
  | @construct before taken after construct hread =>
      have whole : front ++ ((before ++ (taken ++ after)) ++ back) = (front ++ before) ++ (taken ++ (after ++ back)) := by simp
      rw [whole, Nat.add_assoc, ← List.length_append]
      exact .construct hread

theorem liesIn_of_mem_textNodes (h : node ∈ textNodes (some line) column text) (after : Text) {inner : Node}
    (hinner : inner.IsWithin node) : LiesIn line column (text ++ after) inner := by
  unfold textNodes at h
  split at h
  · contradiction
  · obtain rfl := List.mem_singleton.mp h
    cases hinner with
    | self => exact @LiesIn.text line column [] text after
    | inside hchild => contradiction

/-- Every node that is read from a text, however deep it lies, stands in it as it would by itself. -/
theorem liesIn_of_isWithin {inner : Node} (h : node ∈ parse (some line) column text) (hinner : inner.IsWithin node) :
    LiesIn line column text inner := by
  induction text using construct_induction generalizing column node with
  | plain text hfind =>
      rw [parse_of_none hfind] at h
      have whole := liesIn_of_mem_textNodes h [] hinner
      rwa [List.append_nil] at whole
  | found before after construct hfind hread ihInner ihRest =>
      obtain ⟨c, back, rfl, -⟩ := exists_taken_of_isRead hread
      rw [parse_of_taken hfind] at h
      rcases List.mem_append.mp h with h | h
      · exact liesIn_of_mem_textNodes h _ hinner
      · cases h with
        | head =>
            cases hinner with
            | self => exact .construct hread
            | @inside _ child hchild hinner =>
                -- a child stands behind the bracket that opens the label
                have place : column + (before ++ [c]).length = column + before.length + 1 := by simp [Nat.add_assoc]
                have deeper : LiesIn line (column + (before ++ [c]).length) construct.inner inner :=
                  ihInner (by rw [place]; exact hchild) hinner
                simpa using deeper.mono (back ++ construct.rest)
        | tail _ h =>
            have later : LiesIn line (column + (before ++ (c :: (construct.inner ++ back))).length) construct.rest inner :=
              ihRest (by rwa [List.length_append, ← Nat.add_assoc]) hinner
            simpa using later.mono []

/-- No label holds a link or a reference. -/
theorem not_isLink_of_liesIn (hlabel : IsLabel label) (h : LiesIn line column label node) : ¬node.IsLink := by
  cases h with
  | text => simp [IsLink, Node.ofText]
  | @construct before taken after construct hread =>
      intro link
      obtain ⟨c, back, htaken, bracketed⟩ := exists_taken_of_isRead hread
      obtain ⟨inside, rfl, others, rfl⟩ := bracketed link
      obtain rfl := List.append_cancel_right htaken
      have read := hlabel.labelState
      rw [labelState_append] at read
      obtain ⟨state, -, read⟩ := Option.bind_eq_some_iff.mp read
      rw [List.cons_append, List.append_assoc, List.cons_append, labelState_bracketed inside] at read
      contradiction

theorem LiesIn.standsAt (h : LiesIn line column text node) : node.StandsAt line column text := by
  cases h with
  | @text before value after =>
      refine ⟨fun _ => ⟨before, value, after, rfl, rfl, rfl⟩, ?_, .nil, fun _ => List.forall_mem_nil _⟩
      exact ⟨_, _, _, _, rfl, le_rfl, Nat.le_add_right _ _, .nil⟩
  | @construct before taken after construct hread =>
      have kind := kind_ne_text_of_isRead hread
      obtain ⟨c, back, htaken, bracketed⟩ := exists_taken_of_isRead hread
      obtain rfl := List.append_cancel_right htaken
      refine ⟨fun text => absurd text kind, ?_, areApart_parse _ _ _, ?_⟩
      · refine ⟨_, _, _, _, rfl, Nat.le_add_right _ 1, ?_, sideBySide_parse line _ construct.inner⟩
        rw [List.length_cons, List.length_append]
        omega
      · intro link child hchild inner hinner
        exact not_isLink_of_liesIn (bracketed link).1 (liesIn_of_isWithin hchild hinner)

/-- The inline nodes of a text stand side by side in its line, from its column to its end, with no two texts next to each
    other. Every node, however deep it lies, stands in the text as its place says, and its children stand inside it. -/
theorem parse_standsAt (line column : Nat) (text : Text) :
    SideBySide line column (column + text.length) (parse (some line) column text) ∧
      AreApart (parse (some line) column text) ∧
      ∀ node ∈ parse (some line) column text, ∀ inner : Node, inner.IsWithin node → inner.StandsAt line column text :=
  ⟨sideBySide_parse line column text, areApart_parse (some line) column text,
    fun _ hnode _ hinner => (liesIn_of_isWithin hnode hinner).standsAt⟩

end Inline

end Changelog
