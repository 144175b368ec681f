import Changelog.Proofs.Text.Lowercase
import Changelog.Proofs.Text.Search
import Changelog.Text.Line
import Mathlib.Data.List.Forall2
import Mathlib.Data.List.TakeWhile

/-! # Stretches of a text

Lines and words of a text are stretches of it, and so is what is left when white space around it is dropped. A stretch
without a certain character stays on one side of it, and most characters of the basic alphabet stand in lower case where
they, or their capitals, stood before.
-/

namespace Changelog.Text

variable {part text line word tail : Text} {c : Char} {p : Char → Bool}

/-! ## What is left of a text -/

theorem dropTailWhile_isPrefix (p : Char → Bool) (text : Text) : dropTailWhile p text <+: text :=
  List.reverse_suffix.mp (by rw [dropTailWhile, List.reverse_reverse]; exact List.dropWhile_suffix p)

theorem eq_false_of_head?_dropWhile (h : (text.dropWhile p).head? = some c) : p c = false := by
  have := List.head?_dropWhile_not p text
  rwa [h] at this

theorem eq_false_of_getLast?_dropTailWhile (h : (dropTailWhile p text).getLast? = some c) : p c = false :=
  eq_false_of_head?_dropWhile (by rwa [dropTailWhile, List.getLast?_reverse] at h)

theorem dropWhile_eq_self (h : ∀ c ∈ text.head?, p c = false) : text.dropWhile p = text := by
  cases text with
  | nil => rfl
  | cons c text => exact List.dropWhile_cons_of_neg (by simp [h c rfl])

theorem dropTailWhile_eq_self (h : ∀ c ∈ text.getLast?, p c = false) : dropTailWhile p text = text := by
  rw [dropTailWhile, dropWhile_eq_self (by rwa [List.head?_reverse]), List.reverse_reverse]

theorem dropTailWhile_append_cons (h : p c = false) (front text : Text) :
    dropTailWhile p (front ++ c :: text) = front ++ c :: dropTailWhile p text := by
  simp only [dropTailWhile, List.reverse_append, List.reverse_cons, List.append_assoc, List.singleton_append,
    List.dropWhile_append]
  split
  next empty => simp [h, List.isEmpty_iff.mp empty]
  next => simp

theorem dropTailWhile_append_of_exists (h : ∃ c ∈ text, p c = false) (front : Text) :
    dropTailWhile p (front ++ text) = front ++ dropTailWhile p text := by
  obtain ⟨c, hc, kept⟩ := h
  obtain ⟨before, after, rfl⟩ := List.append_of_mem hc
  rw [← List.append_assoc, dropTailWhile_append_cons kept, dropTailWhile_append_cons kept, List.append_assoc]

theorem dropTailWhile_ne_nil (h : ∃ c ∈ text, p c = false) : dropTailWhile p text ≠ [] := by
  obtain ⟨c, hc, kept⟩ := h
  obtain ⟨before, after, rfl⟩ := List.append_of_mem hc
  simp [dropTailWhile_append_cons kept]

theorem dropTailWhile_append_of_forall (h : ∀ c ∈ tail, p c) (text : Text) :
    dropTailWhile p (text ++ tail) = dropTailWhile p text := by
  rw [dropTailWhile, List.reverse_append, List.dropWhile_append_of_pos fun c hc => h c (List.mem_reverse.mp hc)]
  rfl

theorem dropTailWhile_append_takeTailWhile (p : Char → Bool) (text : Text) :
    dropTailWhile p text ++ takeTailWhile p text = text := by
  rw [dropTailWhile, takeTailWhile, ← List.reverse_append, List.takeWhile_append_dropWhile, List.reverse_reverse]

theorem forall_mem_takeTailWhile (p : Char → Bool) (text : Text) : ∀ c ∈ takeTailWhile p text, p c :=
  fun _ hc => List.mem_takeWhile_imp (List.mem_reverse.mp hc)

theorem takeTailWhile_append_cons (h : p c = false) (front text : Text) :
    takeTailWhile p (front ++ c :: text) = takeTailWhile p text := by
  have whole := dropTailWhile_append_takeTailWhile p (front ++ c :: text)
  rw [dropTailWhile_append_cons h, List.append_assoc, List.cons_append, List.append_cancel_left_eq, List.cons.injEq] at whole
  exact List.append_cancel_left (whole.2.trans (dropTailWhile_append_takeTailWhile p text).symm)

theorem dropTail?_append (text tail : Text) : dropTail? tail (text ++ tail) = some text :=
  List.isSuffixOf?_eq_some_iff_append_eq.mpr rfl

theorem dropTail?_eq_none (h : ¬tail <:+ text) : dropTail? tail text = none := by
  rw [Option.eq_none_iff_forall_ne_some]
  intro rest hrest
  exact h ⟨rest, List.isSuffixOf?_eq_some_iff_append_eq.mp hrest⟩

theorem strip_isInfix (text : Text) : strip text <:+: text :=
  (dropTailWhile_isPrefix isBlankChar _).isInfix.trans (List.dropWhile_suffix isBlankChar).isInfix

theorem strip_append_of_blank (h : ∀ c ∈ tail, isBlankChar c) (text : Text) : strip (text ++ tail) = strip text := by
  simp only [strip, stripTail, stripLead, List.dropWhile_append]
  split
  next empty =>
    rw [List.isEmpty_iff.mp empty, List.dropWhile_eq_nil_iff.mpr h]
  next => exact dropTailWhile_append_of_forall h _

theorem strip_between {lead : Text} (hlead : ∀ c ∈ lead, isBlankChar c) (htail : ∀ c ∈ tail, isBlankChar c)
    (hfirst : ∀ c ∈ text.head?, isBlankChar c = false) (hlast : ∀ c ∈ text.getLast?, isBlankChar c = false) :
    strip (lead ++ text ++ tail) = text := by
  rw [strip_append_of_blank htail, strip, stripLead, List.dropWhile_append_of_pos hlead, dropWhile_eq_self hfirst, stripTail,
    dropTailWhile_eq_self hlast]

theorem strip_strip (text : Text) : strip (strip text) = strip text := by
  have first : ∀ c ∈ (strip text).head?, isBlankChar c = false := by
    intro c hc
    obtain ⟨rest, hrest⟩ := dropTailWhile_isPrefix isBlankChar (stripLead text)
    have lead : (stripLead text).head? = some c := by
      rw [← hrest, List.head?_append]
      exact Option.or_eq_some_iff.mpr (Or.inl hc)
    exact eq_false_of_head?_dropWhile lead
  have last : ∀ c ∈ (strip text).getLast?, isBlankChar c = false := fun c hc => eq_false_of_getLast?_dropTailWhile hc
  show dropTailWhile isBlankChar ((strip text).dropWhile isBlankChar) = strip text
  rw [dropWhile_eq_self first, dropTailWhile_eq_self last]

/-! ## Lines and words -/

theorem prefix_of_lines {others : List Text} (h : lines text = line :: others) : line <+: text := by
  fun_induction lines text generalizing line others with
  | case1 => contradiction
  | case2 rest _ =>
      rw [(List.cons.inj h).1.symm]
      exact List.nil_prefix
  | case3 c rest _ _ _ =>
      rw [(List.cons.inj h).1.symm]
      exact List.nil_prefix
  | case4 c rest _ _ ih =>
      cases hrest : lines rest with
      | nil =>
          rw [hrest] at h
          rw [(List.cons.inj h).1.symm]
          exact (List.prefix_cons_inj c).mpr List.nil_prefix
      | cons first lines =>
          rw [hrest] at h
          rw [(List.cons.inj h).1.symm]
          exact (List.prefix_cons_inj c).mpr (ih hrest)

theorem infix_of_mem_lines (h : line ∈ lines text) : line <:+: text := by
  fun_induction lines text with
  | case1 => contradiction
  | case2 rest ih =>
      rcases List.mem_cons.mp h with rfl | h
      · exact List.nil_infix
      · exact List.infix_cons (List.infix_cons (ih h))
  | case3 c rest _ _ ih =>
      rcases List.mem_cons.mp h with rfl | h
      · exact List.nil_infix
      · exact List.infix_cons (ih h)
  | case4 c rest _ _ ih =>
      cases hrest : lines rest with
      | nil =>
          rw [hrest] at h
          rw [List.mem_singleton.mp h]
          exact ((List.prefix_cons_inj c).mpr List.nil_prefix).isInfix
      | cons first others =>
          rw [hrest] at h
          rcases List.mem_cons.mp h with rfl | h
          · exact ((List.prefix_cons_inj c).mpr (prefix_of_lines hrest)).isInfix
          · exact List.infix_cons (ih (hrest ▸ List.mem_cons_of_mem first h))

theorem exists_words_eq_cons (h : ((c :: text).head?.map isBlankChar).getD true = false) :
    ∃ word others, words (c :: text) = word :: others ∧ word <+: c :: text := by
  induction text generalizing c with
  | nil => exact ⟨[c], [], by simp_all [words], List.prefix_rfl⟩
  | cons d text ih =>
      have hc : isBlankChar c = false := by simpa using h
      cases hd : isBlankChar d with
      | true => exact ⟨[c], words (d :: text), by simp [words, hc, hd], (List.prefix_cons_inj c).mpr List.nil_prefix⟩
      | false =>
          obtain ⟨word, others, hwords, hprefix⟩ := ih (c := d) (by simpa using hd)
          refine ⟨c :: word, others, ?_, (List.prefix_cons_inj c).mpr hprefix⟩
          rw [words]
          simp [hc, hd, hwords, consFirst]

theorem infix_of_mem_words (h : word ∈ words text) : word <:+: text := by
  induction text with
  | nil => contradiction
  | cons c text ih =>
      rw [words] at h
      split at h
      · exact List.infix_cons (ih h)
      · split at h
        · rcases List.mem_cons.mp h with rfl | h
          · exact ((List.prefix_cons_inj c).mpr List.nil_prefix).isInfix
          · exact List.infix_cons (ih h)
        next inside =>
          cases text with
          | nil => exact absurd rfl inside
          | cons d text =>
              obtain ⟨first, others, hwords, hprefix⟩ := exists_words_eq_cons (by simpa using inside)
              rw [hwords] at h ih
              rcases List.mem_cons.mp h with rfl | h
              · exact ((List.prefix_cons_inj c).mpr hprefix).isInfix
              · exact List.infix_cons (ih (List.mem_cons_of_mem first h))

theorem infix_join_of_mem {parts : List Text} (separator : Text) (h : part ∈ parts) : part <:+: join separator parts := by
  fun_induction join separator parts with
  | case1 => contradiction
  | case2 first => exact List.mem_singleton.mp h ▸ List.infix_rfl
  | case3 first next rest ih =>
      rcases List.mem_cons.mp h with rfl | h
      · exact ((List.prefix_append part separator).trans (List.prefix_append _ _)).isInfix
      · exact List.infix_append_of_infix_right (ih h)

theorem exists_of_infix_join (hne : part ≠ []) (apart : c ∉ part) {parts : List Text} (h : part <:+: join [c] parts) :
    ∃ whole ∈ parts, part <:+: whole := by
  fun_induction join [c] parts with
  | case1 => exact absurd (List.infix_nil.mp h) hne
  | case2 first => exact ⟨first, List.mem_cons_self, h⟩
  | case3 first next rest ih =>
      rw [List.append_assoc, List.singleton_append, infix_append_cons_iff apart] at h
      rcases h with h | h
      · exact ⟨first, List.mem_cons_self, h⟩
      · obtain ⟨whole, hwhole, h⟩ := ih h
        exact ⟨whole, List.mem_cons_of_mem first hwhole, h⟩

theorem cutAt_append_cons (h : c ∉ text) (rest : Text) : cutAt c (text ++ c :: rest) = some (text, rest) := by
  induction text with
  | nil => simp [cutAt]
  | cons d text ih =>
      obtain ⟨hd, htext⟩ := not_or.mp (mt List.mem_cons.mpr h)
      simp [cutAt, Ne.symm hd, ih htext]

/-! ## Lower case -/

/-- Is the second character, in lower case, the first one or its basic capital? -/
def LowersTo (c d : Char) : Prop := c = d ∨ c.isUpper ∧ d = Char.ofNat (c.toNat + 32)

/-- Is the character of the basic alphabet, and not the lower-case form of a character outside of it? -/
def IsBasic (c : Char) : Prop := c.toNat < 128 ∧ c ≠ 'i' ∧ c ≠ 'k'

instance (c : Char) : Decidable (IsBasic c) := inferInstanceAs (Decidable (_ ∧ _))

/-- Of the characters outside the basic alphabet only one has an image inside of it. -/
theorem image_basic : ∀ row ∈ lowercaseRows, 128 ≤ row.2.1 → ∀ n ∈ CaseRow.images row, n < 128 → n = 'k'.toNat := by
  have : (lowercaseRows.all fun row => Nat.blt row.2.1 128 ||
      (CaseRow.images row).all fun n => Nat.ble 128 n || Nat.beq n 107) = true := by decide +kernel
  intro row hrow beyond n hn basic
  have images := List.all_eq_true.mp this row hrow
  simp only [Bool.or_eq_true, Nat.blt_eq, List.all_eq_true, Nat.ble_eq, Nat.beq_eq] at images
  exact ((images.resolve_left (by omega)) n hn).resolve_left (by omega)

theorem not_isBasic_of_mem_lowercaseForm {d : Char} (other : ¬c.toNat < 128) (h : d ∈ lowercaseForm c) : ¬IsBasic d := by
  unfold lowercaseForm at h
  split at h
  · have forms : ∀ x ∈ ['i', Char.ofNat 0x307], ¬IsBasic x := by decide +kernel
    exact forms d h
  · split at h
    next first last step image found =>
      obtain rfl := List.mem_singleton.mp h
      rintro ⟨basic, -, apart⟩
      have hrow := List.mem_of_find?_eq_some found
      have covered : CaseRow.covers (first, last, step, image) c.toNat := by
        rw [covers_eq]
        simpa using List.find?_some found
      have hmem := (CaseRow.image_mem covered).1
      have valid : (image + (c.toNat - first)).isValidChar := by
        have plain := image_plain _ hrow _ hmem
        simp only [Bool.and_eq_true, decide_eq_true_eq] at plain
        exact plain.1
      have beyond : 128 ≤ last := by
        simp only [CaseRow.covers, Bool.and_eq_true, Nat.ble_eq] at covered
        omega
      rw [toNat_ofNat valid] at basic
      exact apart (congrArg Char.ofNat (image_basic _ hrow beyond _ hmem basic))
    next =>
      obtain rfl := List.mem_singleton.mp h
      exact fun basic => other basic.1

theorem lowercaseBetween_of_isBasic {before after : Text} {d : Char} (basic : IsBasic d)
    (h : d ∈ lowercaseBetween before c after) : lowercaseBetween before c after = [d] ∧ LowersTo c d := by
  unfold lowercaseBetween at h ⊢
  split at h
  next small =>
    rw [if_pos small]
    split at h
    next capital =>
      obtain rfl := List.mem_singleton.mp h
      rw [if_pos capital]
      simp only [Bool.and_eq_true, decide_eq_true_eq] at capital
      exact ⟨rfl, Or.inr ⟨(isUpper_iff c).mpr capital, rfl⟩⟩
    next settled =>
      obtain rfl := List.mem_singleton.mp h
      rw [if_neg settled]
      exact ⟨rfl, Or.inl rfl⟩
  next other =>
    exfalso
    split at h
    · have forms : ∀ x ∈ [Char.ofNat 0x3c2, Char.ofNat 0x3c3], ¬IsBasic x := by decide +kernel
      refine forms d ?_ basic
      split at h <;> simp_all
    · exact not_isBasic_of_mem_lowercaseForm other h basic

theorem lowercaseBetween_ne_nil (before : Text) (c : Char) (after : Text) : lowercaseBetween before c after ≠ [] := by
  unfold lowercaseBetween lowercaseForm
  repeat' split
  all_goals simp

theorem lowercase_ne_nil (h : text ≠ []) : lowercase text ≠ [] := by
  obtain ⟨c, rest, rfl⟩ := List.exists_cons_of_ne_nil h
  exact List.append_ne_nil_of_left_ne_nil (lowercaseBetween_ne_nil [] c rest) _

theorem exists_of_prefix_lowercaseAfter (basic : ∀ d ∈ part, IsBasic d) {before : Text}
    (h : part <+: lowercaseAfter before text) : ∃ source, source <+: text ∧ List.Forall₂ LowersTo source part := by
  induction part generalizing before text with
  | nil => exact ⟨[], List.nil_prefix, .nil⟩
  | cons d part ih =>
      obtain ⟨hd, hpart⟩ := List.forall_mem_cons.mp basic
      cases text with
      | nil => exact absurd (List.prefix_nil.mp h) (List.cons_ne_nil d part)
      | cons c text =>
          rw [lowercaseAfter] at h
          obtain ⟨e, forms, hforms⟩ := List.exists_cons_of_ne_nil (lowercaseBetween_ne_nil before c text)
          have hmem : d ∈ lowercaseBetween before c text := by
            rw [hforms, List.cons_append] at h
            rw [hforms, (List.cons_prefix_cons.mp h).1]
            exact List.mem_cons_self
          obtain ⟨alone, lowers⟩ := lowercaseBetween_of_isBasic hd hmem
          rw [alone, List.singleton_append, List.prefix_cons_inj] at h
          obtain ⟨source, hsource, hlower⟩ := ih hpart h
          exact ⟨c :: source, (List.prefix_cons_inj c).mpr hsource, .cons lowers hlower⟩

theorem infix_append_cases {forms rest : Text} (h : part <:+: forms ++ rest) :
    part <:+: rest ∨ ∃ front back, forms = front ++ back ∧ back ≠ [] ∧ part <+: back ++ rest := by
  induction forms with
  | nil => exact Or.inl h
  | cons c forms ih =>
      rw [List.cons_append] at h
      rcases List.infix_cons_iff.mp h with h | h
      · exact Or.inr ⟨[], c :: forms, rfl, List.cons_ne_nil c forms, h⟩
      · rcases ih h with h | ⟨front, back, rfl, hne, h⟩
        · exact Or.inl h
        · exact Or.inr ⟨c :: front, back, rfl, hne, h⟩

theorem exists_of_infix_lowercaseAfter (basic : ∀ d ∈ part, IsBasic d) {before : Text}
    (h : part <:+: lowercaseAfter before text) : ∃ source, source <:+: text ∧ List.Forall₂ LowersTo source part := by
  cases part with
  | nil => exact ⟨[], List.nil_infix, .nil⟩
  | cons d part =>
      induction text generalizing before with
      | nil => exact absurd (List.infix_nil.mp h) (List.cons_ne_nil d part)
      | cons c text ih =>
          have whole : d :: part <+: lowercaseAfter before (c :: text) →
              ∃ source, source <:+: c :: text ∧ List.Forall₂ LowersTo source (d :: part) := by
            intro h
            obtain ⟨source, hsource, hlower⟩ := exists_of_prefix_lowercaseAfter basic h
            exact ⟨source, hsource.isInfix, hlower⟩
          rw [lowercaseAfter] at h whole
          rcases infix_append_cases h with h | ⟨front, back, hforms, hne, h⟩
          · obtain ⟨source, hsource, hlower⟩ := ih h
            exact ⟨source, List.infix_cons hsource, hlower⟩
          · -- no other form of the character stands in front of a basic one
            obtain ⟨e, back, rfl⟩ := List.exists_cons_of_ne_nil hne
            have same : d = e := (List.cons_prefix_cons.mp h).1
            subst same
            have alone := (lowercaseBetween_of_isBasic (basic d List.mem_cons_self) (by rw [hforms]; simp)).1
            rw [alone] at hforms whole
            have hback : front = [] ∧ back = [] := by
              cases front with
              | nil => exact ⟨rfl, (List.cons.inj hforms).2.symm⟩
              | cons e front => simp at hforms
            rw [hback.2] at h
            exact whole h

/-- What stands in lower case, of basic characters, stood in the text in some case. -/
theorem exists_of_infix_lowercase (basic : ∀ d ∈ part, IsBasic d) (h : part <:+: lowercase text) :
    ∃ source, source <:+: text ∧ List.Forall₂ LowersTo source part :=
  exists_of_infix_lowercaseAfter basic h

end Changelog.Text
