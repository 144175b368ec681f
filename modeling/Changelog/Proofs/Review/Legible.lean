import Changelog.Proofs.Markdown.Plain
import Changelog.Proofs.Review.Address
import Changelog.Proofs.Review.Returned

/-! # Linked headings that are read back

The heading that linking writes for a release with a valid version and a date says the same when it is read from its
line, and so does the one for what is not released yet. Only the heading of the oldest release is not written anew.
-/

namespace Changelog

namespace Review

open LineForm

variable {path : Option Path} {options : Options} {project : Project} {fetch : Fetch} {o : Outline} {r : Release}
  {releases : List Release} {definitions : Definitions} {date version : Text}

/-! ## Dates -/

theorem dropTail?_of_isUnbroken (unbroken : date.IsUnbroken) : Text.dropTail? ['\n'] date = none := by
  rw [Option.eq_none_iff_forall_ne_some]
  intro before hbefore
  have tail : before ++ ['\n'] = date := List.isSuffixOf?_eq_some_iff_append_eq.mp hbefore
  have ended := unbroken '\n' (by simp [← tail])
  contradiction

theorem exists_of_isDate (h : isDate date) (unbroken : date.IsUnbroken) : ∃ before last, date = before ++ [last] ∧
    isDecimalDigit last ∧ ∀ c ∈ date, isDecimalDigit c ∨ c = '-' := by
  unfold isDate at h
  rw [dropTail?_of_isUnbroken unbroken, Option.getD_none] at h
  dsimp only at h
  split at h
  next a b c d dash e f dash' g last =>
    simp only [Bool.and_eq_true, List.all_cons, List.all_nil, Bool.and_true, beq_iff_eq] at h
    obtain ⟨⟨⟨ha, hb, hc, hd, he, hf, hg, hlast⟩, rfl⟩, rfl⟩ := h
    refine ⟨[a, b, c, d, '-', e, f, '-', g], last, rfl, hlast, ?_⟩
    simp [ha, hb, hc, hd, he, hf, hg, hlast]
  next => contradiction

theorem isBare_of_isDate (h : isDate date) (unbroken : date.IsUnbroken) : Inline.IsBare date := by
  obtain ⟨_, _, _, _, chars⟩ := exists_of_isDate h unbroken
  intro c hc hmark
  have other : ∀ c ∈ ['[', ']', '\x5c', '\x60'], isDecimalDigit c = false ∧ c ≠ '-' := by decide
  obtain ⟨noDigit, noDash⟩ := other c hmark
  rcases chars c hc with digit | dash
  · simp [noDigit] at digit
  · exact noDash dash

/-! ## Headings -/

theorem dropClosing_linked (h : isDate date) (unbroken : date.IsUnbroken) (front : Text) :
    dropClosing (front ++ date) = front ++ date := by
  obtain ⟨before, last, rfl, digit, _⟩ := exists_of_isDate h unbroken
  have other : isDecimalDigit ' ' = false ∧ isDecimalDigit '\t' = false ∧ isDecimalDigit '#' = false := by decide
  have noBlank : isSpaceOrTab last = false := by
    rw [Bool.eq_false_iff]
    intro blank
    simp only [isSpaceOrTab, Bool.or_eq_true, beq_iff_eq] at blank
    rcases blank with rfl | rfl
    · simp [other] at digit
    · simp [other] at digit
  have noSign : last ≠ '#' := by
    rintro rfl
    simp [other] at digit
  rw [← List.append_assoc]
  exact dropClosing_concat noBlank noSign _

theorem withoutPositionsAll_parse_linked (bare : Inline.IsBare version) (hne : version ≠ []) (hdate : isDate date)
    (unbroken : date.IsUnbroken) :
    Node.withoutPositionsAll (Inline.parse none 1
      (dropClosing (('[' :: version ++ ']' :: (ReleaseHeading.dateSeparator ++ date)).dropWhile isSpaceOrTab))) =
      [Node.linkReference (normalizeLabel version) version .shortcut [Node.ofText version],
        Node.ofText (ReleaseHeading.dateSeparator ++ date)] := by
  have separator : ReleaseHeading.dateSeparator = [' ', '-', ' '] := by decide
  have behind : Inline.IsBare ('-' :: ' ' :: date) :=
    List.forall_mem_cons.mpr ⟨by decide, List.forall_mem_cons.mpr ⟨by decide, isBare_of_isDate hdate unbroken⟩⟩
  have content : dropClosing (('[' :: version ++ ']' :: ' ' :: '-' :: ' ' :: date).dropWhile isSpaceOrTab) =
      '[' :: version ++ ']' :: ' ' :: '-' :: ' ' :: date := by
    have front : '[' :: version ++ ']' :: ' ' :: '-' :: ' ' :: date =
        ('[' :: version ++ [']', ' ', '-', ' ']) ++ date := by simp
    rw [List.cons_append, List.dropWhile_cons_of_neg (by decide), ← List.cons_append, front]
    exact dropClosing_linked hdate unbroken _
  rw [separator]
  exact (congrArg (fun text => Node.withoutPositionsAll (Inline.parse none 1 text)) content).trans
    (Inline.withoutPositionsAll_parse_of_isBare bare hne behind)

theorem isTold_iff (plain : (relinked r).heading.IsPlainHeading) : IsTold r ↔
    ReleaseHeading.ofNodes (Node.withoutPositionsAll
      (Inline.parse none 1 (dropClosing ((Node.inlineTextAll (relinked r).heading.children).dropWhile isSpaceOrTab)))) =
      ReleaseHeading.ofNodes (relinked r).heading.children := by
  rw [IsTold, ← ReleaseHeading.ofNodes_withoutPositions, plain.withoutPositionsAll_reread]

theorem parse_relinked_of_isUnreleased (hun : r.isUnreleased) :
    Node.withoutPositionsAll
      (Inline.parse none 1 (dropClosing ((Node.inlineTextAll (relinked r).heading.children).dropWhile isSpaceOrTab))) =
      (relinked r).heading.children := by
  have settled : ∀ nodes ∈ [[Node.linkReference (Text.lowercase unreleased) (Text.lowercase unreleased) .full
        [Node.ofText unreleasedText]], [Node.ofText unreleasedText]],
      Node.withoutPositionsAll
        (Inline.parse none 1 (dropClosing ((Node.inlineTextAll nodes).dropWhile isSpaceOrTab))) = nodes := by decide +kernel
  refine settled _ ?_
  rw [children_relinked]
  cases hlink : link? r with
  | none => simp [hun]
  | some link =>
      have hversion : r.version = some link.1 := Option.eq_some_of_filter_eq_some (version?_of_link? hlink)
      have hunreleased : r.version = some unreleased := of_decide_eq_true hun
      have same : link.1 = unreleased := Option.some.inj (hversion.symm.trans hunreleased)
      dsimp only
      rw [linkedHeading_eq, if_pos hun, same]
      exact List.mem_cons_self

theorem isTold_of_isUnreleased (plain : (relinked r).heading.IsPlainHeading) (hun : r.isUnreleased) : IsTold r := by
  rw [isTold_iff plain, parse_relinked_of_isUnreleased hun]

section

variable {link : Text × Text} (hlink : link? r = some link) (released : r.isUnreleased = false)

include hlink released

theorem children_relinked_of_link : (relinked r).heading.children =
    [Node.linkReference (Text.lowercase link.1) (Text.lowercase link.1) .shortcut [Node.ofText link.1],
      Node.ofText (ReleaseHeading.dateSeparator ++ shownDate r)] := by
  rw [children_relinked, hlink]
  simp only [linkedHeading_eq, released, Bool.false_eq_true, if_false]

theorem inlineTextAll_relinked_of_link : Node.inlineTextAll (relinked r).heading.children =
    '[' :: link.1 ++ ']' :: (ReleaseHeading.dateSeparator ++ shownDate r) := by
  rw [children_relinked_of_link hlink released]
  simp [Node.inlineTextAll, Node.inlineText, Node.linkReference, Node.ofText, Node.referenceText, Node.orEmpty]

theorem parse_relinked_of_link (plain : (relinked r).heading.IsPlainHeading) (valid : Version.isValid link.1)
    (hdate : isDate (shownDate r)) :
    Node.withoutPositionsAll
      (Inline.parse none 1 (dropClosing ((Node.inlineTextAll (relinked r).heading.children).dropWhile isSpaceOrTab))) =
      [Node.linkReference (normalizeLabel link.1) link.1 .shortcut [Node.ofText link.1],
        Node.ofText (ReleaseHeading.dateSeparator ++ shownDate r)] := by
  have printed := inlineTextAll_relinked_of_link hlink released
  have bare : Inline.IsBare link.1 := Version.isBare_of_isVersionChar (Version.forall_isVersionChar_of_isValid valid)
  have unbroken : (shownDate r).IsUnbroken := by
    have line := plain.unbroken
    rw [printed] at line
    exact line.mono fun c hc => by simp [hc]
  rw [printed]
  exact withoutPositionsAll_parse_linked bare (Version.ne_nil_of_isValid valid) hdate unbroken

theorem isTold_of_link (placed : IsPlaced r) (plain : (relinked r).heading.IsPlainHeading) (valid : Version.isValid link.1)
    (hdate : isDate (shownDate r)) : IsTold r := by
  rw [isTold_iff plain, parse_relinked_of_link hlink released plain valid hdate, children_relinked_of_link hlink released]
  have separated := isUnsplit_shownDate placed
  exact (ReleaseHeading.ofNodes_linked separated).trans (ReleaseHeading.ofNodes_linked separated).symm

end

end Review

end Changelog
