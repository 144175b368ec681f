import Changelog.Proofs.Markdown.DefinitionLine

/-! # Constructs printed

What is printed for code, a link or a reference begins and ends with the same characters as the text that it was read
from. A label holds no constructs but code, and it stays a label when that code is printed with other backticks.
-/

namespace Changelog.Inline

variable {text label before rest : Text} {construct : Construct}

/-! ## What is printed for a text -/

/-- A text as it is printed again. -/
def written (text : Text) : Text := Node.inlineTextAll (parse none 1 text)

theorem inlineTextAll_parse (line : Option Nat) (column : Nat) (text : Text) :
    Node.inlineTextAll (parse line column text) = written text := by
  rw [written, ← Node.inlineTextAll_withoutPositions, withoutPositionsAll_parse line none column 1,
    Node.inlineTextAll_withoutPositions]

/-- The node of a construct, at no place. -/
def Construct.whole (construct : Construct) : Node :=
  { construct.node with children := parse none 1 construct.inner, position := none }

theorem parse_none_column (column column' : Nat) (text : Text) : parse none column text = parse none column' text := by
  rcases hfind : findConstruct text with ⟨before, _ | construct⟩
  · rw [parse_of_none hfind, parse_of_none hfind]
    rfl
  · rw [parse_of_some hfind, parse_of_some hfind, parse_none_column _ (column' + before.length + 1) construct.inner,
      parse_none_column _ (column' + before.length + (text.length - before.length - construct.rest.length)) construct.rest]
    rfl
termination_by text.length
decreasing_by
  · exact (length_of_findConstruct hfind).1
  · exact (length_of_findConstruct hfind).2

theorem parse_of_none_place (h : findConstruct text = (before, some construct)) :
    parse none 1 text = textNodes none 1 before ++ construct.whole :: parse none 1 construct.rest := by
  rw [parse_of_some h, parse_none_column _ 1 construct.inner, parse_none_column _ 1 construct.rest]
  rfl

theorem written_of_none (h : findConstruct text = (before, none)) : written text = text := by
  rw [written, parse_of_none h, inlineTextAll_textNodes, eq_of_findConstruct h]

theorem written_of_some (h : findConstruct text = (before, some construct)) :
    written text = before ++ (construct.whole.inlineText ++ written construct.rest) := by
  rw [written, parse_of_none_place h, inlineTextAll_append, inlineTextAll_textNodes, Node.inlineTextAll]
  rfl

/-- What holds of texts without constructs, and of a text if it holds of the label of its first construct and of what
    stands behind that, holds of all texts. -/
theorem construct_induction {p : Text → Prop} (plain : ∀ text, findConstruct text = (text, none) → p text)
    (found : ∀ before after construct, findConstruct (before ++ after) = (before, some construct) →
      IsRead after construct → p construct.inner → p construct.rest → p (before ++ after)) (text : Text) : p text := by
  rcases hfind : findConstruct text with ⟨before, _ | construct⟩
  · have := eq_of_findConstruct hfind
    subst this
    exact plain _ hfind
  · have inner := construct_induction plain found construct.inner
    have rest := construct_induction plain found construct.rest
    obtain ⟨after, rfl, hread⟩ := exists_of_findConstruct hfind
    exact found before after construct hfind (isRead_of_readConstruct hread) inner rest
termination_by text.length
decreasing_by
  · exact (length_of_findConstruct hfind).1
  · exact (length_of_findConstruct hfind).2

/-! ## What is printed for a construct -/

/-- How many backticks stand on each side of code. -/
def fence (code : Text) : Nat := if '\x60' ∈ code then 2 else 1

theorem fence_pos (code : Text) : 1 ≤ fence code := by
  unfold fence
  split <;> decide

theorem inlineText_code (code rest : Text) :
    (Construct.mk (codeNode code) [] rest).whole.inlineText = ticks (fence code) ++ (code ++ ticks (fence code)) := by
  show Node.inlineCodeText code = _
  rw [Node.inlineCodeText, fence]
  split <;> rw [List.append_assoc] <;> rfl

theorem inlineText_link (url label rest : Text) (title : Option Text) :
    (Construct.mk (linkNode url title) label rest).whole.inlineText =
      '[' :: (written label ++ ']' :: '(' :: (url ++ titleText title ++ [')'])) := by
  show Node.linkText (written label) (some url) title = _
  rw [Node.linkText, titleText]
  split <;> simp [Node.orEmpty]

theorem inlineText_full {second : Text} (filled : second ≠ []) (label rest : Text) :
    (Construct.mk (reference second .full) label rest).whole.inlineText =
      '[' :: (written label ++ ']' :: '[' :: (second ++ [']'])) := by
  have shown : Node.firstNonempty (some second) (some (normalizeLabel second)) = some second := by
    have : second.isEmpty = false := by simpa using filled
    simp [Node.firstNonempty, Node.orEmpty, this]
  show Node.referenceText (written label) (some (normalizeLabel second)) (some second) (some .full) = _
  rw [Node.referenceText, shown]
  simp

theorem inlineText_collapsed (key label rest : Text) :
    (Construct.mk (reference key .collapsed) label rest).whole.inlineText = '[' :: (written label ++ [']', '[', ']']) := by
  show Node.referenceText (written label) (some (normalizeLabel key)) (some key) (some .collapsed) = _
  simp [Node.referenceText]

theorem inlineText_shortcut (key label rest : Text) :
    (Construct.mk (reference key .shortcut) label rest).whole.inlineText = '[' :: (written label ++ [']']) := by
  show Node.referenceText (written label) (some (normalizeLabel key)) (some key) (some .shortcut) = _
  simp [Node.referenceText]

theorem exists_ends_of_isRead (h : IsRead text construct) : ∃ taken, text = taken ++ construct.rest ∧
    construct.whole.inlineText.head?.isSome ∧ construct.whole.inlineText.head? = taken.head? ∧
      construct.whole.inlineText.getLast? = taken.getLast? := by
  cases h with
  | @code k code rest positive _ _ =>
      refine ⟨ticks k ++ (code ++ ticks k), by simp, ?_⟩
      rw [inlineText_code]
      simp [List.head?_append, List.getLast?_append, head?_ticks positive, getLast?_ticks positive, head?_ticks (fence_pos code),
        getLast?_ticks (fence_pos code)]
  | @link label target url rest title hlabel htarget =>
      obtain ⟨front, rfl, -⟩ := takes_of_readTarget htarget
      refine ⟨'[' :: (label ++ ']' :: '(' :: (front ++ [')'])), by simp, ?_⟩
      rw [inlineText_link]
      simp [List.getLast?_cons, List.getLast?_append]
  | @full label second rest _ _ _ filled =>
      refine ⟨'[' :: (label ++ ']' :: '[' :: (second ++ [']'])), by simp, ?_⟩
      rw [inlineText_full filled]
      simp [List.getLast?_cons, List.getLast?_append]
  | @collapsed label rest =>
      refine ⟨'[' :: (label ++ [']', '[', ']']), by simp, ?_⟩
      rw [inlineText_collapsed]
      simp [List.getLast?_cons, List.getLast?_append]
  | @shortcut label rest =>
      refine ⟨'[' :: (label ++ [']']), by simp, ?_⟩
      rw [inlineText_shortcut]
      simp [List.getLast?_cons, List.getLast?_append]

theorem head?_written (text : Text) : (written text).head? = text.head? := by
  induction text using construct_induction with
  | plain text h => rw [written_of_none h]
  | found before after construct hfind hread _ _ =>
      obtain ⟨taken, rfl, filled, hhead, -⟩ := exists_ends_of_isRead hread
      have first : taken.head?.isSome := hhead ▸ filled
      rw [written_of_some hfind, List.head?_append, List.head?_append, List.head?_append, List.head?_append, hhead,
        Option.or_of_isSome first, Option.or_of_isSome first]

theorem getLast?_written (text : Text) : (written text).getLast? = text.getLast? := by
  induction text using construct_induction with
  | plain text h => rw [written_of_none h]
  | found before after construct hfind hread _ ih =>
      obtain ⟨taken, rfl, -, -, hlast⟩ := exists_ends_of_isRead hread
      rw [written_of_some hfind, List.getLast?_append, List.getLast?_append, List.getLast?_append, List.getLast?_append, ih,
        hlast]

section

variable {c : Char} (hc : c ∉ marks)

include hc

theorem count_mark {d : Char} (hd : d ∈ marks) (text : Text) : (d :: text).count c = text.count c :=
  List.count_cons_of_ne fun (heq : d = c) => hc (heq ▸ hd)

theorem count_ticks (k : Nat) : (ticks k).count c = 0 :=
  List.count_eq_zero.mpr fun hmem => hc (by rw [List.eq_of_mem_replicate hmem]; decide)

theorem count_titleText (title : Option Text) : (titleText title).count c = (Node.orEmpty title).count c := by
  rw [titleText]
  split
  next empty => rw [List.isEmpty_iff.mp empty]
  next =>
    rw [List.append_assoc, List.cons_append, List.cons_append, List.nil_append, count_mark hc (by decide),
      count_mark hc (by decide), List.count_append, count_mark hc (by decide)]
    rfl

/-- Nothing but marks is printed more often than it was read. -/
theorem count_written_le (text : Text) : (written text).count c ≤ text.count c := by
  have opening : ∀ text, ('[' :: text).count c = text.count c := count_mark hc (by decide)
  have closing : ∀ text, (']' :: text).count c = text.count c := count_mark hc (by decide)
  induction text using construct_induction with
  | plain text h => rw [written_of_none h]
  | found before after construct hfind hread ihInner ihRest =>
      rw [written_of_some hfind, List.count_append, List.count_append, List.count_append]
      refine Nat.add_le_add_left ?_ _
      cases hread with
      | code =>
          rw [inlineText_code]
          simp only [List.count_append, count_ticks hc] at ihRest ⊢
          omega
      | link _ htarget =>
          obtain ⟨front, rfl, hsub⟩ := takes_of_readTarget htarget
          have target := hsub.count_le c
          have round : ∀ text, ('(' :: text).count c = text.count c := count_mark hc (by decide)
          have closed : ∀ text, (')' :: text).count c = text.count c := count_mark hc (by decide)
          rw [inlineText_link]
          simp only [List.count_append, opening, closing, round, closed, count_titleText hc, List.count_nil]
            at target ihInner ihRest ⊢
          omega
      | full _ _ _ filled =>
          rw [inlineText_full filled]
          simp only [List.count_append, opening, closing, List.count_nil] at ihInner ihRest ⊢
          omega
      | collapsed =>
          rw [inlineText_collapsed]
          simp only [List.count_append, opening, closing, List.count_nil] at ihInner ihRest ⊢
          omega
      | shortcut =>
          rw [inlineText_shortcut]
          simp only [List.count_append, opening, closing, List.count_nil] at ihInner ihRest ⊢
          omega

end

/-! ## Labels -/

/-- Reading a label character by character: whether the next character is taken with a backslash. There is no state
    behind a bracket or a line feed that a label cannot hold. -/
def labelState (escaped : Bool) : Text → Option Bool
  | [] => some escaped
  | c :: rest =>
    if escaped then if c = '\n' then none else labelState false rest
    else if c = '[' ∨ c = ']' then none
    else labelState (c = '\x5c') rest

theorem labelState_append (escaped : Bool) (text rest : Text) :
    labelState escaped (text ++ rest) = (labelState escaped text).bind (labelState · rest) := by
  induction text generalizing escaped with
  | nil => rfl
  | cons c text ih =>
      rw [List.cons_append, labelState, labelState]
      split <;> split <;> first | rfl | exact ih _

theorem labelState_ticks {k : Nat} (positive : 1 ≤ k) (escaped : Bool) : labelState escaped (ticks k) = some false := by
  have later : ∀ n, labelState false (ticks n) = some false := by
    intro n
    induction n with
    | zero => rfl
    | succ n ih => simpa [ticks, List.replicate_succ, labelState] using ih
  obtain ⟨n, rfl⟩ := Nat.exists_eq_add_of_le' positive
  cases escaped with
  | false => exact later _
  | true => simpa [ticks, List.replicate_succ, labelState] using later n

theorem isLabel_of_labelState (h : labelState false label = some false) : IsLabel label := by
  intro rest
  fun_induction readLabel label with
  | case1 => rfl
  | case2 => simp [labelState] at h
  | case3 => simp [labelState] at h
  | case4 => simp [labelState] at h
  | case5 => simp [labelState] at h
  | case6 c label hc ih =>
      have later : labelState false label = some false := by simpa [labelState, hc] using h
      rw [List.cons_append, List.cons_append, readLabel, if_neg hc, ih later]
      rfl
  | case7 c label hclose hopen hlast hescape ih =>
      have plain : c ≠ '\x5c' := by
        rintro rfl
        cases label with
        | nil => exact hlast rfl rfl
        | cons d label => exact hescape d label rfl rfl
      have inside : ¬(c = '[' ∨ c = ']') := fun hc => hc.elim hopen hclose
      have later : labelState false label = some false := by simpa [labelState, plain, inside] using h
      rw [List.cons_append]
      simp [readLabel, plain, ih later]

theorem labelState_of_readLabel (h : readLabel text = some (label, rest)) : labelState false label = some false := by
  fun_induction readLabel text generalizing label with
  | case1 => contradiction
  | case2 =>
      cases h
      rfl
  | case3 => contradiction
  | case4 => contradiction
  | case5 => contradiction
  | case6 c text hc ih =>
      obtain ⟨⟨label, after⟩, hread, heq⟩ := Option.map_eq_some_iff.mp h
      cases heq
      simpa [labelState, hc] using ih hread
  | case7 c text hclose hopen hlast hescape ih =>
      obtain ⟨⟨label, after⟩, hread, heq⟩ := Option.map_eq_some_iff.mp h
      cases heq
      have plain : c ≠ '\x5c' := by
        rintro rfl
        cases text with
        | nil => contradiction
        | cons d text => exact hescape d text rfl rfl
      have inside : ¬(c = '[' ∨ c = ']') := fun hc => hc.elim hopen hclose
      simpa [labelState, plain, inside] using ih hread

theorem IsLabel.labelState (h : IsLabel label) : labelState false label = some false := labelState_of_readLabel (h [])

theorem labelState_bracketed (h : IsLabel label) (escaped : Bool) (rest : Text) :
    labelState escaped ('[' :: (label ++ ']' :: rest)) = none := by
  cases escaped with
  | false => rfl
  | true => simp [labelState, labelState_append, h.labelState]

/-- No bracket begins a construct inside a label, and code leaves the same state however many backticks it stands
    between. -/
theorem labelState_written {escaped next : Bool} (h : labelState escaped text = some next) :
    labelState escaped (written text) = some next := by
  induction text using construct_induction generalizing escaped with
  | plain text hfind => rwa [written_of_none hfind]
  | found before after construct hfind hread _ ih =>
      rw [written_of_some hfind]
      rw [labelState_append] at h ⊢
      obtain ⟨state, hbefore, h⟩ := Option.bind_eq_some_iff.mp h
      rw [hbefore, Option.bind_some]
      cases hread with
      | code positive =>
          rw [inlineText_code]
          simp only [labelState_append, labelState_ticks positive, labelState_ticks (fence_pos _), Option.bind_some] at h ⊢
          obtain ⟨inside, hcode, h⟩ := Option.bind_eq_some_iff.mp h
          rw [hcode, Option.bind_some, Option.bind_some]
          exact ih h
      | link hlabel =>
          rw [labelState_bracketed hlabel] at h
          contradiction
      | full hlabel =>
          rw [labelState_bracketed hlabel] at h
          contradiction
      | collapsed hlabel =>
          rw [labelState_bracketed hlabel] at h
          contradiction
      | shortcut hlabel =>
          rw [labelState_bracketed hlabel] at h
          contradiction

/-- A label is still one when it is printed again. -/
theorem IsLabel.written (h : IsLabel label) : IsLabel (written label) :=
  isLabel_of_labelState (labelState_written h.labelState)

end Changelog.Inline
