import Changelog.Markdown.Printer
import Changelog.Proofs.Markdown.Reading

/-! # Inline content printed

What is printed for the inline nodes of a text holds no characters but those of the text and the marks of links,
references and code. Where a text stands plays no part in what its nodes are.
-/

namespace Changelog

namespace Inline

variable {text label rest : Text} {construct : Construct}

/-! ## Readers take what they return from the text -/

/-- A reader took `taken` from the front of a text, in the order of the text, and left `rest`. -/
def Takes (text taken rest : Text) : Prop := ∃ front, text = front ++ rest ∧ taken.Sublist front

namespace Takes

variable {taken middle others part : Text} {c : Char}

theorem subset (h : Takes text taken rest) : taken ⊆ text ∧ rest ⊆ text := by
  obtain ⟨front, rfl, htaken⟩ := h
  exact ⟨List.Subset.trans htaken.subset (List.subset_append_left _ _), List.subset_append_right _ _⟩

theorem trans (h : Takes text taken middle) (h' : Takes middle others rest) : Takes text (taken ++ others) rest := by
  obtain ⟨front, rfl, htaken⟩ := h
  obtain ⟨back, rfl, hothers⟩ := h'
  exact ⟨front ++ back, by rw [List.append_assoc], htaken.append hothers⟩

theorem mono (h : Takes text taken rest) (hpart : part.Sublist taken) : Takes text part rest := by
  obtain ⟨front, rfl, htaken⟩ := h
  exact ⟨front, rfl, hpart.trans htaken⟩

theorem cons (h : Takes text taken rest) (c : Char) : Takes (c :: text) taken rest := by
  obtain ⟨front, rfl, htaken⟩ := h
  exact ⟨c :: front, rfl, htaken.cons c⟩

theorem tail (h : Takes text taken (c :: rest)) : Takes text taken rest := by
  obtain ⟨front, rfl, htaken⟩ := h
  exact ⟨front ++ [c], by simp, htaken.trans (List.sublist_append_left front [c])⟩

theorem takeWhile (p : Char → Bool) (text : Text) : Takes text (text.takeWhile p) (text.dropWhile p) :=
  ⟨_, List.takeWhile_append_dropWhile.symm, List.Sublist.refl _⟩

theorem dropWhile (p : Char → Bool) (text : Text) : Takes text [] (text.dropWhile p) :=
  (takeWhile p text).mono (List.nil_sublist _)

end Takes

theorem takes_of_readUntil {close : Char} {inside : Text} (h : readUntil close text = some (inside, rest)) :
    Takes text inside rest := by
  rw [Text.cutAt_eq_some h]
  exact Takes.tail ⟨inside, rfl, List.Sublist.refl _⟩

theorem takes_of_readTitle {title : Text} (h : readTitle text = some (title, rest)) : Takes text title rest := by
  unfold readTitle at h
  split at h
  · exact (takes_of_readUntil h).cons _
  · exact (takes_of_readUntil h).cons _
  · exact (takes_of_readUntil h).cons _
  · contradiction

theorem takes_of_readAngled {destination : Text} (h : readAngled text = some (destination, rest)) :
    Takes text destination rest := by
  unfold readAngled at h
  split at h
  next after =>
    obtain ⟨⟨inside, r⟩, hr, heq⟩ := Option.map_eq_some_iff.mp h
    cases heq
    rw [Text.cutAt_eq_some hr]
    exact ⟨'<' :: inside ++ ['>'], by simp, List.Sublist.refl _⟩
  next => contradiction

theorem dropAngles_cases (destination : Text) :
    dropAngles destination = destination ∨ destination = '<' :: (dropAngles destination ++ ['>']) := by
  unfold dropAngles
  split
  next inside hlead =>
    have lead : ['<'] ++ inside = destination := List.isPrefixOf?_eq_some_iff_append_eq.mp hlead
    cases htail : Text.dropTail? ['>'] inside with
    | none => exact Or.inl rfl
    | some content =>
        have tail : content ++ ['>'] = inside := List.isSuffixOf?_eq_some_iff_append_eq.mp htail
        rw [← lead, ← tail]
        exact Or.inr rfl
  next => exact Or.inl rfl

theorem dropAngles_sublist (destination : Text) : (dropAngles destination).Sublist destination := by
  rcases dropAngles_cases destination with same | angled
  · rw [same]
  · conv_rhs => rw [angled]
    exact (List.sublist_append_left _ ['>']).cons '<'

theorem takes_of_readTitled {title : Text} (h : readTitled text = some (title, rest)) : Takes text title (')' :: rest) := by
  simp only [readTitled, Option.bind_eq_bind, Option.bind_eq_some_iff, Prod.exists] at h
  obtain ⟨t, after, ht, h⟩ := h
  split at h
  next rest' heq =>
    cases h
    have behind := Takes.dropWhile isSpaceOrTab after
    rw [heq] at behind
    have whole := ((Takes.dropWhile isSpaceOrTab text).trans (takes_of_readTitle ht)).trans behind
    rwa [List.nil_append, List.append_nil] at whole
  next => contradiction

theorem takes_of_readTargetEnd {title : Option Text} (h : readTargetEnd text = some (title, rest)) :
    Takes text (Node.orEmpty title) (')' :: rest) := by
  unfold readTargetEnd at h
  split at h
  next rest' heq =>
    cases h
    rw [← heq]
    exact Takes.dropWhile isSpaceOrTab text
  next =>
    split at h
    · obtain ⟨⟨t, r⟩, hr, heq⟩ := Option.map_eq_some_iff.mp h
      cases heq
      exact takes_of_readTitled hr
    · contradiction

theorem takes_of_readDestination {url : Text} {title : Option Text}
    (h : readDestination text = some (url, title, rest)) : Takes text (url ++ Node.orEmpty title) (')' :: rest) := by
  simp only [readDestination, Option.orElse_eq_orElse, Option.orElse_eq_or, Option.or_eq_some_iff,
    Option.bind_eq_bind, Option.bind_eq_some_iff, Prod.exists, Option.pure_def, Option.some.injEq,
    Prod.mk.injEq] at h
  rcases h with ⟨d, after, hd, t, r, hr, rfl, rfl, rfl⟩ | ⟨_, t, r, hr, rfl, rfl, rfl⟩
  · exact ((takes_of_readAngled hd).mono (dropAngles_sublist d)).trans (takes_of_readTargetEnd hr)
  · exact ((Takes.takeWhile _ text).mono (dropAngles_sublist _)).trans (takes_of_readTargetEnd hr)

theorem takes_of_readTarget {url : Text} {title : Option Text} (h : readTarget text = some (url, title, rest)) :
    Takes text (url ++ Node.orEmpty title) (')' :: rest) := by
  simp only [readTarget, Option.orElse_eq_orElse, Option.orElse_eq_or, Option.or_eq_some_iff] at h
  rcases h with h | ⟨_, h⟩
  · exact (Takes.dropWhile isSpaceOrTab text).trans (takes_of_readDestination h)
  · split at h
    · obtain ⟨⟨t, r⟩, hr, heq⟩ := Option.map_eq_some_iff.mp h
      cases heq
      exact takes_of_readTitled hr
    · contradiction

/-! ## What is printed -/

def marks : Text := ['[', ']', '(', ')', '\x60', ' ', '\x22']

section

variable {p : Char → Prop} (hmarks : ∀ c ∈ marks, p c)

include hmarks

theorem forall_mem_inlineCodeText {code : Text} (h : ∀ c ∈ code, p c) : ∀ c ∈ Node.inlineCodeText code, p c := by
  have backtick : p '\x60' := hmarks _ (by decide)
  unfold Node.inlineCodeText
  split <;> simpa only [List.cons_append, List.nil_append, List.forall_mem_append, List.forall_mem_cons, List.not_mem_nil,
    false_implies, implies_true, and_true, backtick, true_and] using h

theorem forall_mem_linkText {content url : Text} {title : Option Text} (hcontent : ∀ c ∈ content, p c)
    (hurl : ∀ c ∈ url, p c) (htitle : ∀ c ∈ Node.orEmpty title, p c) :
    ∀ c ∈ Node.linkText content (some url) title, p c := by
  have mark : p '[' ∧ p ']' ∧ p '(' ∧ p ')' ∧ p ' ' ∧ p '\x22' :=
    ⟨hmarks _ (by decide), hmarks _ (by decide), hmarks _ (by decide), hmarks _ (by decide), hmarks _ (by decide),
      hmarks _ (by decide)⟩
  unfold Node.linkText
  dsimp only
  split <;> simp only [List.cons_append, List.forall_mem_append, List.forall_mem_cons, List.not_mem_nil,
    false_implies, implies_true, and_true, mark, true_and]
  · exact ⟨hcontent, hurl⟩
  · exact ⟨hcontent, hurl, htitle⟩

theorem forall_mem_reference {label : Text} (form : ReferenceForm) (children : List Node) (position : Option Position)
    (hchildren : ∀ c ∈ Node.inlineTextAll children, p c) (hlabel : ∀ c ∈ label, p c) (filled : form = .full → label ≠ []) :
    ∀ c ∈ ({ reference label form with children, position } : Node).inlineText, p c := by
  show ∀ c ∈ Node.referenceText (Node.inlineTextAll children) (some (normalizeLabel label)) (some label) (some form), p c
  have mark : p '[' ∧ p ']' := ⟨hmarks _ (by decide), hmarks _ (by decide)⟩
  cases form with
  | full =>
      have shown : Node.firstNonempty (some label) (some (normalizeLabel label)) = some label := by
        have : label.isEmpty = false := by simpa using filled rfl
        simp [Node.firstNonempty, Node.orEmpty, this]
      rw [Node.referenceText, shown]
      simp only [List.cons_append, List.forall_mem_append, List.forall_mem_cons, List.not_mem_nil,
        false_implies, implies_true, and_true, mark, true_and, Option.getD_some]
      exact ⟨hchildren, hlabel⟩
  | collapsed | shortcut =>
      simpa only [Node.referenceText, List.cons_append, List.forall_mem_append, List.forall_mem_cons,
        List.not_mem_nil, false_implies, implies_true, and_true, mark, true_and] using hchildren

/-- What a construct that was read from a text is made of: parts of the text, and marks when it is printed with other
    children. -/
structure Construct.IsReadFrom (p : Char → Prop) (text : Text) (construct : Construct) : Prop where
  inner : construct.inner ⊆ text
  rest : construct.rest ⊆ text
  printed : (∀ c ∈ text, p c) → ∀ (children : List Node) (position : Option Position),
    (∀ c ∈ Node.inlineTextAll children, p c) → ∀ c ∈ ({ construct.node with children, position } : Node).inlineText, p c

theorem isReadFrom_of_isRead (h : IsRead text construct) : construct.IsReadFrom p text := by
  cases h with
  | @code k code rest =>
      refine ⟨List.nil_subset _, fun c hc => by simp [hc], fun htext _ _ _ => ?_⟩
      exact forall_mem_inlineCodeText hmarks fun c (hc : c ∈ code) => htext c (by simp [hc])
  | @link label target url rest title _ htarget =>
      obtain ⟨hparts, hrest⟩ := (takes_of_readTarget htarget).tail.subset
      obtain ⟨hurl, htitle⟩ := List.append_subset.mp hparts
      have within : target ⊆ '[' :: (label ++ ']' :: '(' :: target) := fun c hc => by simp [hc]
      refine ⟨fun c hc => by simp [hc], List.Subset.trans hrest within, fun htext children position hchildren => ?_⟩
      exact forall_mem_linkText hmarks hchildren (fun c hc => htext c (within (hurl hc))) fun c hc =>
        htext c (within (htitle hc))
  | full _ _ _ filled =>
      refine ⟨fun c hc => by simp [hc], fun c hc => by simp [hc], fun htext children position hchildren => ?_⟩
      exact forall_mem_reference hmarks .full children position hchildren (fun c hc => htext c (by simp [hc])) fun _ => filled
  | collapsed =>
      refine ⟨fun c hc => by simp [hc], fun c hc => by simp [hc], fun htext children position hchildren => ?_⟩
      exact forall_mem_reference hmarks .collapsed children position hchildren (fun c hc => htext c (by simp [hc])) nofun
  | shortcut =>
      refine ⟨fun c hc => by simp [hc], fun c hc => by simp [hc], fun htext children position hchildren => ?_⟩
      exact forall_mem_reference hmarks .shortcut children position hchildren (fun c hc => htext c (by simp [hc])) nofun

end

theorem exists_of_findConstruct {before : Text} (h : findConstruct text = (before, some construct)) :
    ∃ after, text = before ++ after ∧ readConstruct after = some construct := by
  fun_induction findConstruct text generalizing before with
  | case1 => simp at h
  | case2 c rest k hk =>
      simp only [Prod.mk.injEq, Option.some.injEq] at h
      obtain ⟨rfl, rfl⟩ := h
      exact ⟨c :: rest, rfl, hk⟩
  | case3 c rest _ before' found hfind ih =>
      simp only [Prod.mk.injEq] at h
      obtain ⟨rfl, rfl⟩ := h
      obtain ⟨after, rfl, hafter⟩ := ih hfind
      exact ⟨after, rfl, hafter⟩

theorem eq_of_findConstruct {before : Text} (h : findConstruct text = (before, none)) : before = text := by
  fun_induction findConstruct text generalizing before with
  | case1 => simpa using h.symm
  | case2 => simp at h
  | case3 c rest _ before' found hfind ih =>
      simp only [Prod.mk.injEq] at h
      obtain ⟨rfl, rfl⟩ := h
      rw [ih hfind]

theorem inlineTextAll_append (nodes others : List Node) :
    Node.inlineTextAll (nodes ++ others) = Node.inlineTextAll nodes ++ Node.inlineTextAll others := by
  induction nodes with
  | nil => rfl
  | cons node nodes ih => rw [List.cons_append, Node.inlineTextAll, Node.inlineTextAll, ih, List.append_assoc]

theorem inlineTextAll_textNodes (line : Option Nat) (column : Nat) (text : Text) :
    Node.inlineTextAll (textNodes line column text) = text := by
  unfold textNodes
  split
  next h => simpa [Node.inlineTextAll] using h
  next => simp [Node.inlineTextAll, Node.inlineText, Node.ofText, Node.orEmpty]

/-- Nothing is printed but characters of the text and marks. -/
theorem forall_mem_inlineTextAll_parse {p : Char → Prop} (hmarks : ∀ c ∈ marks, p c) (line : Option Nat) (column : Nat)
    (htext : ∀ c ∈ text, p c) : ∀ c ∈ Node.inlineTextAll (parse line column text), p c := by
  fun_induction parse line column text with
  | case1 column text before hfind =>
      rw [inlineTextAll_textNodes, eq_of_findConstruct hfind]
      exact htext
  | case2 column text before construct hfind start width ihInner ihRest =>
      obtain ⟨after, rfl, hread⟩ := exists_of_findConstruct hfind
      have read := isReadFrom_of_isRead hmarks (isRead_of_readConstruct hread)
      have within : ∀ c ∈ after, p c := fun c hc => htext c (List.mem_append_right _ hc)
      -- the children of a construct are read from its label
      have children := ihInner fun c hc => within c (read.inner hc)
      rw [inlineTextAll_append, inlineTextAll_textNodes, Node.inlineTextAll]
      simp only [List.forall_mem_append]
      exact ⟨fun c hc => htext c (List.mem_append_left _ hc), read.printed within _ _ children,
        ihRest fun c hc => within c (read.rest hc)⟩

/-! ## Places -/

theorem parse_of_none {before : Text} (h : findConstruct text = (before, none)) (line : Option Nat) (column : Nat) :
    parse line column text = textNodes line column before := by
  rw [parse]
  split
  next before' hfind =>
    cases h.symm.trans hfind
    rfl
  next hfind => cases h.symm.trans hfind

theorem parse_nil (line : Option Nat) (column : Nat) : parse line column [] = [] := by
  have nothing : findConstruct [] = ([], none) := rfl
  rw [parse_of_none nothing]
  rfl

theorem parse_of_some {before : Text} (h : findConstruct text = (before, some construct)) (line : Option Nat) (column : Nat) :
    parse line column text = textNodes line column before ++
      { construct.node with
        children := parse line (column + before.length + 1) construct.inner
        position := positionAt line (column + before.length) (text.length - before.length - construct.rest.length) } ::
      parse line (column + before.length + (text.length - before.length - construct.rest.length)) construct.rest := by
  rw [parse]
  split
  next hfind => cases h.symm.trans hfind
  next before' construct' hfind =>
    cases h.symm.trans hfind
    rfl

theorem withoutPositionsAll_append (nodes others : List Node) :
    Node.withoutPositionsAll (nodes ++ others) = Node.withoutPositionsAll nodes ++ Node.withoutPositionsAll others := by
  induction nodes with
  | nil => rfl
  | cons node nodes ih => rw [List.cons_append, Node.withoutPositionsAll, Node.withoutPositionsAll, ih, List.cons_append]

theorem withoutPositionsAll_textNodes (line line' : Option Nat) (column column' : Nat) (text : Text) :
    Node.withoutPositionsAll (textNodes line column text) = Node.withoutPositionsAll (textNodes line' column' text) := by
  unfold textNodes
  split <;> rfl

theorem withoutPositionsAll_parse (line line' : Option Nat) (column column' : Nat) (text : Text) :
    Node.withoutPositionsAll (parse line column text) = Node.withoutPositionsAll (parse line' column' text) := by
  fun_induction parse line column text generalizing column' with
  | case1 column text before hfind =>
      rw [parse_of_none hfind]
      exact withoutPositionsAll_textNodes ..
  | case2 column text before construct hfind start width ihInner ihRest =>
      rw [parse_of_some hfind line', withoutPositionsAll_append, withoutPositionsAll_append]
      refine congr (congrArg _ (withoutPositionsAll_textNodes ..)) ?_
      simp only [Node.withoutPositionsAll, Node.withoutPositions]
      rw [ihInner (column' + before.length + 1), ihRest (column' + before.length + width)]

end Inline

end Changelog
