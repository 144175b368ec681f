import Changelog.Proofs.Markdown.Rearranged

/-! # Blocks and the lines around them

The blocks of a document stand one behind the other, and all lines that are left over are blank. A block begins with a
line that is not blank, and it ends with one too, unless it is a fence or HTML that nothing closes: then it takes all
lines up to the end.
-/

namespace Changelog

open LineForm

variable {line : Text} {lines rest post : List Text} {number : Nat} {form : BlockForm} {block : Block} {blocks : List Block}

namespace Block

/-- Blocks that are read one behind the other from lines that are numbered from `number` on. -/
inductive Tiles : Nat → List Text → List Block → Prop where
  | nil {number : Nat} : Tiles number [] []
  | blank {number : Nat} {line : Text} {lines : List Text} {blocks : List Block} : Text.isBlank line →
      Tiles (number + 1) lines blocks → Tiles number (line :: lines) blocks
  | block {number : Nat} {line : Text} {rest post : List Text} {form : BlockForm} {blocks : List Block} :
      Text.isBlank line = false → read line (rest ++ post) = (form, rest.length) →
      Tiles (number + 1 + rest.length) post blocks →
      Tiles number (line :: (rest ++ post)) ({ first := number, lines := line :: rest, form } :: blocks)

theorem tiles_ofLinesFrom (number skip : Nat) (lines : List Text) :
    Tiles (number + skip) (lines.drop skip) (ofLinesFrom number skip lines) := by
  induction lines generalizing number skip with
  | nil =>
      rw [List.drop_nil]
      exact .nil
  | cons line lines ih =>
      cases skip with
      | succ skip =>
          have later := ih (number + 1) skip
          rwa [Nat.add_right_comm, Nat.add_assoc] at later
      | zero =>
          cases hline : Text.isBlank line with
          | true =>
              rw [ofLinesFrom_blank hline]
              exact .blank hline (ih (number + 1) 0)
          | false =>
              obtain ⟨rest, post, rfl, reach⟩ : ∃ rest post, lines = rest ++ post ∧
                  (read line (rest ++ post)).2 = rest.length := by
                refine ⟨lines.take (read line lines).2, lines.drop (read line lines).2, ?_, ?_⟩
                · rw [List.take_append_drop]
                · rw [List.take_append_drop, List.length_take_of_le (read_le line lines)]
              have hread : read line (rest ++ post) = ((read line (rest ++ post)).1, rest.length) := Prod.ext rfl reach
              have later := ih (number + 1) rest.length
              rw [ofLinesFrom_skip, List.drop_left] at later
              rw [ofLinesFrom_block hline hread]
              exact .block hline hread later

/-- No other blocks are read from the same lines. -/
theorem Tiles.eq_ofLinesFrom (h : Tiles number lines blocks) : blocks = ofLinesFrom number 0 lines := by
  induction h with
  | nil => rfl
  | blank hline _ ih => rw [ofLinesFrom_blank hline, ih]
  | block hline hread _ ih => rw [ofLinesFrom_block hline hread, ih]

theorem tiles_ofLines (lines : List Text) : Tiles 1 lines (ofLines lines) := tiles_ofLinesFrom 1 0 lines

theorem StandsIn.bounds (h : StandsIn number lines block) :
    number ≤ block.first ∧ block.first + block.lines.length ≤ number + lines.length := by
  obtain ⟨before, line, rest, post, rfl, hfirst, hlines, _⟩ := h
  rw [hlines]
  simp only [List.length_append, List.length_cons]
  omega

namespace Tiles

theorem bounds (h : Tiles number lines blocks) (hblock : block ∈ blocks) :
    number ≤ block.first ∧ block.first + block.lines.length ≤ number + lines.length := by
  rw [h.eq_ofLinesFrom] at hblock
  exact (standsIn_of_mem_ofLinesFrom hblock).bounds

theorem pairwise (h : Tiles number lines blocks) : blocks.Pairwise fun a b => a.first + a.lines.length ≤ b.first := by
  induction h with
  | nil => exact .nil
  | blank _ _ ih => exact ih
  | block _ _ later ih =>
      refine .cons ?_ ih
      intro next hnext
      have behind := (later.bounds hnext).1
      simp only [List.length_cons]
      omega

theorem isBlank_of_free (h : Tiles number lines blocks) {i : Nat} (hline : lines[i]? = some line)
    (free : ∀ block ∈ blocks, ¬(block.first ≤ number + i ∧ number + i < block.first + block.lines.length)) :
    Text.isBlank line := by
  induction h generalizing i with
  | nil => contradiction
  | blank hblank _ ih =>
      cases i with
      | zero =>
          cases hline
          exact hblank
      | succ i =>
          apply ih hline
          intro block hblock
          have := free block hblock
          omega
  | @block number first rest post form blocks _ _ _ ih =>
      -- the line stands behind the first block, for it is not one of its own
      have own := free _ List.mem_cons_self
      simp only [List.length_cons] at own
      obtain ⟨j, rfl⟩ : ∃ j, i = rest.length + j + 1 := ⟨i - (rest.length + 1), by omega⟩
      rw [List.getElem?_cons_succ, List.getElem?_append_right (Nat.le_add_right ..), Nat.add_sub_cancel_left] at hline
      apply ih hline
      intro block hblock
      have := free block (List.mem_cons_of_mem _ hblock)
      omega

end Tiles

/-! ## The last line of a block -/

/-- Was a block opened by a fence, or by HTML that goes on to a mark of its own, and closed by none of its lines? -/
def IsLeftOpen (form : BlockForm) (rest : List Text) : Prop :=
  match form with
  | .fence fence => ∀ line ∈ rest, closesFence fence line = false
  | .html (some (raw, after)) => raw.endsIn after = false ∧ ∀ line ∈ rest, raw.endsIn line = false
  | _ => False

theorem isBlank_eq_false_of_mem {c : Char} (h : c ∈ line) (hc : isBlankChar c = false) : Text.isBlank line = false := by
  rw [Text.isBlank, List.all_eq_false]
  exact ⟨c, h, by simp [hc]⟩

theorem size_of_fence? {fence : Fence} (h : fence? line = some fence) :
    3 ≤ fence.size ∧ (fence.mark = '\x60' ∨ fence.mark = '~') := by
  simp only [fence?, Option.bind_eq_bind, Option.bind_eq_some_iff] at h
  obtain ⟨marked, _, h⟩ := h
  split at h
  next mark rest =>
    split at h
    next opens =>
      cases h
      simpa [and_comm] using opens
    next => contradiction
  next => contradiction

theorem isBlank_of_closesFence {opening other : Text} {fence : Fence} (hopen : fence? opening = some fence)
    (h : closesFence fence other) : Text.isBlank other = false := by
  obtain ⟨size, mark⟩ := size_of_fence? hopen
  unfold closesFence at h
  cases hmarked : dropIndent? other with
  | none => simp [hmarked] at h
  | some marked =>
      simp only [hmarked, Option.map_some, Option.getD_some, Bool.and_eq_true, decide_eq_true_eq] at h
      cases marked with
      | nil =>
          simp at h
          omega
      | cons c marked =>
          have same : c = fence.mark := by
            by_contra other
            simp [other] at h
            omega
          apply isBlank_eq_false_of_mem ((dropIndent?_suffix hmarked).subset List.mem_cons_self)
          rcases mark with mark | mark
          · rw [same, mark]
            decide
          · rw [same, mark]
            decide

theorem isBlank_of_endsIn {raw : RawHtml} (h : raw.endsIn line) : Text.isBlank line = false := by
  have closed : '>' ∈ line := by
    cases raw with
    | element =>
        obtain ⟨name, hname, h⟩ := List.any_eq_true.mp h
        exact Text.mem_of_containsFolded h (by decide) (by simp)
    | comment | instruction | declaration | cdata => exact ((Text.contains_iff _ _).mp h).subset (by decide)
  exact isBlank_eq_false_of_mem closed (by decide)

theorem fence?_of_ofLine {fence : Fence} (h : BlockForm.ofLine line = .fence fence) : fence? line = some fence :=
  isSaidBy_of_ofLine h

theorem rawHtml?_of_ofLine {raw : Option (RawHtml × Text)} (h : BlockForm.ofLine line = .html raw) : rawHtml? line = raw :=
  (isSaidBy_of_ofLine h).2

theorem reachThrough_concat {p : Text → Bool} {front : List Text} {last : Text}
    (h : reachThrough p (front ++ [last]) = front.length + 1) : p last ∨ ∀ line ∈ front ++ [last], p line = false := by
  induction front with
  | nil => cases hlast : p last <;> simp [hlast]
  | cons line front ih =>
      rw [List.cons_append, reachThrough] at h
      split at h
      · simp at h
      next open' =>
        cases ih (by simpa using h) with
        | inl closed => exact Or.inl closed
        | inr none => exact Or.inr (List.forall_mem_cons.mpr ⟨by simpa using open', none⟩)

/-- The last line of a block is not blank, unless the block takes lines for want of one that closes it. -/
theorem isBlank_of_read {front : List Text} {last : Text} (h : read line (front ++ [last]) = (form, front.length + 1)) :
    Text.isBlank last = false ∨ IsLeftOpen form (front ++ [last]) := by
  have length : front.length + 1 = (front ++ [last]).length := by rw [List.length_append, List.length_singleton]
  have mem : last ∈ front ++ [last] := List.mem_append_right front (List.mem_singleton_self last)
  cases reaches_of_read h with
  | alone _ reach => contradiction
  | fence own reach =>
      cases reachThrough_concat reach with
      | inl closed => exact Or.inl (isBlank_of_closesFence (fence?_of_ofLine own) closed)
      | inr none => exact Or.inr none
  | list _ reach | indentedCode _ reach => exact Or.inl (isBlank_of_reachOver 0 (reach.trans (Nat.zero_add _).symm))
  | upToBlank _ _ reach => exact Or.inl (isBlank_of_reachBlank (reach.trans length) last mem)
  | rawHtml _ reach =>
      split at reach
      next => contradiction
      next open' =>
        cases reachThrough_concat reach with
        | inl closed => exact Or.inl (isBlank_of_endsIn closed)
        | inr none => exact Or.inr ⟨by simpa using open', none⟩
  | paragraph _ reach | setext _ reach =>
      rw [length] at reach
      exact Or.inl (passed_of_reachParagraph reach last mem).1

theorem isLeftOpen_of_isBlank (filled : Text.isBlank line = false) (hread : read line rest = (form, rest.length))
    {front : List Text} {last : Text} (hlast : line :: rest = front ++ [last]) (blank : Text.isBlank last) :
    IsLeftOpen form rest := by
  cases front with
  | nil =>
      cases hlast
      rw [blank] at filled
      contradiction
  | cons first front =>
      rw [List.cons_append, List.cons.injEq] at hlast
      obtain ⟨-, rfl⟩ := hlast
      rw [List.length_append, List.length_singleton] at hread
      cases isBlank_of_read hread with
      | inl filled =>
          rw [blank] at filled
          contradiction
      | inr leftOpen => exact leftOpen

/-- A block that nothing closes takes all lines. -/
theorem IsLeftOpen.eq_nil_of_endsBefore (h : IsLeftOpen form rest) (ends : EndsBefore form rest post) : post = [] := by
  cases form with
  | fence fence =>
      cases ends with
      | inl closed =>
          obtain ⟨line, hline, closes⟩ := List.any_eq_true.mp closed
          rw [h line hline] at closes
          contradiction
      | inr whole => exact whole
  | html raw =>
      cases raw with
      | none => contradiction
      | some opening =>
          rcases ends with closed | closed | whole
          · rw [h.1] at closed
            contradiction
          · obtain ⟨line, hline, closes⟩ := List.any_eq_true.mp closed
            rw [h.2 line hline] at closes
            contradiction
          · exact whole
  | atx | thematicBreak | definition | list | blockquote | indentedCode | paragraph | setext => contradiction

end Block

/-! ## Places -/

namespace Position

def linesOf (p : Position) (lines : List Text) : List Text := (lines.take p.endLine).drop (p.startLine - 1)

def IsOrdered (p : Position) : Prop := p.startLine < p.endLine ∨ p.startLine = p.endLine ∧ p.startColumn ≤ p.endColumn

/-- Does a place go over the line with a number? -/
def GoesOver (p : Position) (number : Nat) : Prop := p.startLine ≤ number ∧ number ≤ p.endLine

instance (p : Position) (number : Nat) : Decidable (p.GoesOver number) := inferInstanceAs (Decidable (_ ∧ _))

end Position

namespace Node

/-- A fence, or HTML that goes on to a mark of its own, that none of its lines closes. -/
inductive IsUnclosed (node : Node) : List Text → Prop where
  | fence {line : Text} {rest : List Text} {fence : Fence} : node.kind = .code → fence? line = some fence →
      (∀ other ∈ rest, closesFence fence other = false) → IsUnclosed node (line :: rest)
  | html {line after : Text} {rest : List Text} {raw : RawHtml} : node.kind = .html → rawHtml? line = some (raw, after) →
      raw.endsIn after = false → (∀ other ∈ rest, raw.endsIn other = false) → IsUnclosed node (line :: rest)

/-- How a block stands in the lines of a document. Its first line is not blank, and its last line is blank only if it is
    not closed and goes on to the end. What is no heading and no definition keeps its lines. -/
structure Covers (node : Node) (lines : List Text) (p : Position) : Prop where
  position : node.position = some p
  inside : 1 ≤ p.startLine ∧ p.endLine ≤ lines.length
  ordered : p.IsOrdered
  first : ∃ line, lines[p.startLine - 1]? = some line ∧ Text.isBlank line = false
  last : ∃ line, lines[p.endLine - 1]? = some line ∧ p.endColumn = line.length + 1 ∧
    (Text.isBlank line → p.endLine = lines.length ∧ node.IsUnclosed (p.linesOf lines))
  value : node.kind = .heading ∨ node.kind = .definition ∨ node.value = some (Text.unlines (p.linesOf lines))

end Node

namespace Block

theorem isUnclosed_of_isLeftOpen (hread : read line rest = (block.form, rest.length)) (h : IsLeftOpen block.form rest) :
    block.node.IsUnclosed (line :: rest) := by
  have own := ofLine_of_read hread
  unfold node
  cases hform : block.form with
  | fence fence =>
      rw [hform] at own h
      exact .fence rfl (fence?_of_ofLine (own.resolve_right (by simp))) h
  | html raw =>
      rw [hform] at own h
      cases raw with
      | none => contradiction
      | some opening => exact .html rfl (rawHtml?_of_ofLine (own.resolve_right (by simp))) h.1 h.2
  | atx | thematicBreak | definition | list | blockquote | indentedCode | paragraph | setext =>
      rw [hform] at h
      contradiction

theorem kept_of_node (block : Block) : block.node.kind = .heading ∨ block.node.kind = .definition ∨
    block.node.value = some (Text.unlines block.lines) := by
  unfold node
  cases block.form with
  | atx | setext => exact Or.inl rfl
  | definition => exact Or.inr (Or.inl rfl)
  | fence | thematicBreak | list | blockquote | html | indentedCode | paragraph => exact Or.inr (Or.inr rfl)

theorem StandsIn.linesOf_position (h : StandsIn 1 lines block) : block.position.linesOf lines = block.lines := by
  have place := h.position_eq
  obtain ⟨before, line, rest, post, hsplit, hfirst, hlines, _⟩ := h
  have whole : lines = before ++ block.lines ++ post := by
    rw [hsplit, hlines]
    simp
  have start : block.position.startLine - 1 = before.length := by omega
  have stop : block.position.endLine = (before ++ block.lines).length := by
    rw [List.length_append]
    omega
  rw [Position.linesOf, start, stop]
  conv_lhs => rw [whole]
  rw [List.take_left, List.drop_left]

theorem StandsIn.getElem?_lines (h : StandsIn 1 lines block) {k : Nat} (inside : k < block.lines.length) :
    lines[block.first - 1 + k]? = block.lines[k]? := by
  have place := h.position_eq
  have first := h.bounds.1
  rw [← h.linesOf_position, Position.linesOf, List.getElem?_drop, List.getElem?_take_of_lt (by omega), place.1]

theorem StandsIn.endLine_of_isLeftOpen (h : StandsIn 1 lines block) (leftOpen : IsLeftOpen block.form block.lines.tail) :
    block.position.endLine = lines.length := by
  have place := h.position_eq
  obtain ⟨before, line, rest, post, rfl, hfirst, hlines, _, hread⟩ := h
  have ends := ((read_append line rest post block.form).mp hread).2
  rw [hlines, List.tail_cons] at leftOpen
  rw [leftOpen.eq_nil_of_endsBefore ends, List.append_nil, List.length_append]
  rw [hlines] at place
  omega

theorem StandsIn.goesOver_iff (h : StandsIn 1 lines block) :
    block.position.GoesOver number ↔ block.first ≤ number ∧ number < block.first + block.lines.length := by
  have place := h.position_eq
  unfold Position.GoesOver
  omega

theorem StandsIn.covers (h : StandsIn 1 lines block) : block.node.Covers lines block.position := by
  have taken := h.linesOf_position
  have place := h.position_eq
  have bounds := h.bounds
  obtain ⟨line, rest, hlines, hline, own⟩ := h.read_own
  obtain ⟨front, last, hlast⟩ : ∃ front last, line :: rest = front ++ [last] :=
    ⟨_, _, (List.dropLast_append_getLast (List.cons_ne_nil line rest)).symm⟩
  have length : block.lines.length = front.length + 1 := by
    rw [hlines, hlast, List.length_append, List.length_singleton]
  have columns : block.position.startColumn = 1 ∧ block.position.endColumn = last.length + 1 := by
    rw [Block.position, span, hlines, hlast, List.getLast?_concat]
    exact ⟨rfl, rfl⟩
  refine ⟨Document.position_node block, ?_, ?_, ⟨line, ?_, hline⟩, ⟨last, ?_, columns.2, ?_⟩, ?_⟩
  · omega
  · unfold Position.IsOrdered
    omega
  · have first := h.getElem?_lines (k := 0) (by omega)
    rwa [hlines, ← place.1] at first
  · have final := h.getElem?_lines (k := front.length) (by omega)
    have stop : block.first - 1 + front.length = block.position.endLine - 1 := by omega
    rwa [stop, hlines, hlast, List.getElem?_concat_length] at final
  · intro blank
    have leftOpen := isLeftOpen_of_isBlank hline own hlast blank
    rw [taken, hlines]
    refine ⟨h.endLine_of_isLeftOpen ?_, isUnclosed_of_isLeftOpen own leftOpen⟩
    rwa [hlines, List.tail_cons]
  · rw [taken]
    exact kept_of_node block

theorem span_all (lines : List Text) : (span 1 lines).IsOrdered ∧ (span 1 lines).startLine = 1 ∧
    (span 1 lines).endLine = max 1 lines.length ∧ (span 1 lines).endColumn = (lines.getLast?.getD []).length + 1 := by
  unfold Position.IsOrdered span
  cases hlast : lines.getLast? with
  | none =>
      rw [List.getLast?_eq_none_iff.mp hlast]
      exact ⟨Or.inr ⟨rfl, le_rfl⟩, rfl, rfl, rfl⟩
  | some last =>
      have filled : 0 < lines.length := List.length_pos_of_mem (List.mem_of_getLast? hlast)
      refine ⟨?_, rfl, ?_, rfl⟩
      · dsimp only
        omega
      · dsimp only
        omega

end Block

namespace Document

/-- The blocks of a document and its lines. Each block covers lines of its own, above those of the next block; every line
    that no block covers is blank; and the document as a whole goes from its first to its last line. -/
theorem parse_tiles (text : Text) :
    (∀ node ∈ (parse text).children, ∃ p, node.Covers (Text.lines text) p) ∧
      (parse text).children.Pairwise (fun a b => ∀ p ∈ a.position, ∀ q ∈ b.position, p.endLine < q.startLine) ∧
      (∀ i line, (Text.lines text)[i]? = some line →
        (∀ node ∈ (parse text).children, ∀ p ∈ node.position, ¬p.GoesOver (i + 1)) → Text.isBlank line) ∧
      ∃ p ∈ (parse text).position, p.IsOrdered ∧ p.startLine = 1 ∧ p.endLine = max 1 (Text.lines text).length ∧
        p.endColumn = ((Text.lines text).getLast?.getD []).length + 1 := by
  have tiled := Block.tiles_ofLines (Text.lines text)
  have standing : ∀ block ∈ Block.ofLines (Text.lines text), block.StandsIn 1 (Text.lines text) :=
    fun _ => Block.standsIn_of_mem_ofLinesFrom
  refine ⟨?_, ?_, ?_, ?_⟩
  · intro node hnode
    obtain ⟨block, hblock, rfl⟩ := List.mem_map.mp hnode
    exact ⟨_, (standing block hblock).covers⟩
  · refine List.pairwise_map.mpr (tiled.pairwise.imp_of_mem ?_)
    intro a b ha hb above p hp q hq
    rw [position_node] at hp hq
    cases hp
    cases hq
    have upper := (standing a ha).position_eq
    have lower := (standing b hb).position_eq
    omega
  · intro i line hline free
    apply tiled.isBlank_of_free hline
    intro block hblock inside
    apply free block.node (List.mem_map_of_mem hblock) block.position (position_node block)
    apply (standing block hblock).goesOver_iff.mpr
    rwa [Nat.add_comm i 1]
  · exact ⟨_, rfl, Block.span_all (Text.lines text)⟩

end Document

end Changelog
