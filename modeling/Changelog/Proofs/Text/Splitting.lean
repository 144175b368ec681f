import Changelog.Text.Basic

/-! # Texts that are split

A text is split at the occurrences of a separator from the left. Its parts stand in it and hold no separator, and what is put
in front of it, without a place at which a separator could start, belongs to the first of them.
-/

namespace Changelog.Text

variable {separator text part lead : Text} {parts : List Text} {c : Char}

/-- Does the text hold no separator? -/
def IsUnsplit (separator text : Text) : Prop := splitAll separator text = [text]

instance : Decidable (IsUnsplit separator text) := inferInstanceAs (Decidable (_ = _))

theorem exists_splitFrom_eq_cons (separator text : Text) : ∃ first parts,
    splitFrom separator 0 text = first :: parts ∧ first <+: text := by
  induction text with
  | nil => exact ⟨[], [], rfl, List.prefix_rfl⟩
  | cons c rest ih =>
      unfold splitFrom
      split
      next => exact ⟨[], _, rfl, List.nil_prefix⟩
      next =>
        obtain ⟨first, parts, hsplit, hprefix⟩ := ih
        exact ⟨c :: first, parts, by rw [hsplit, consFirst], (List.prefix_cons_inj c).mpr hprefix⟩

theorem isUnsplit_nil (separator : Text) : IsUnsplit separator [] := rfl

theorem isUnsplit_of_mem_splitFrom {skip : Nat} (h : part ∈ splitFrom separator skip text) :
    IsUnsplit separator part := by
  fun_induction splitFrom separator skip text generalizing part with
  | case1 =>
      rw [List.mem_singleton.mp h]
      exact isUnsplit_nil separator
  | case2 _ _ _ ih => exact ih h
  | case3 _ _ _ ih =>
      rcases List.mem_cons.mp h with rfl | h
      · exact isUnsplit_nil separator
      · exact ih h
  | case4 c rest hstart ih =>
      obtain ⟨first, parts, hsplit, hprefix⟩ := exists_splitFrom_eq_cons separator rest
      rw [hsplit] at h ih
      rcases List.mem_cons.mp h with rfl | h
      · have first_unsplit : IsUnsplit separator first := ih List.mem_cons_self
        have hstart' : startsWith (c :: first) separator = false := by
          rw [Bool.eq_false_iff]
          intro starts
          refine hstart (List.isPrefixOf_iff_prefix.mpr ?_)
          exact (List.isPrefixOf_iff_prefix.mp starts).trans ((List.prefix_cons_inj c).mpr hprefix)
        unfold IsUnsplit splitAll at first_unsplit ⊢
        rw [splitFrom, hstart', first_unsplit]
        rfl
      · exact ih (List.mem_cons_of_mem first h)

theorem isUnsplit_of_mem_splitAll (h : part ∈ splitAll separator text) : IsUnsplit separator part :=
  isUnsplit_of_mem_splitFrom h

theorem infix_of_mem_splitFrom {skip : Nat} (h : part ∈ splitFrom separator skip text) : part <:+: text := by
  fun_induction splitFrom separator skip text generalizing part with
  | case1 =>
      obtain rfl := List.mem_singleton.mp h
      exact List.nil_infix
  | case2 _ c rest ih => exact List.infix_cons (ih h)
  | case3 c rest _ ih =>
      rcases List.mem_cons.mp h with rfl | h
      · exact List.nil_infix
      · exact List.infix_cons (ih h)
  | case4 c rest hstart ih =>
      obtain ⟨first, parts, hsplit, hprefix⟩ := exists_splitFrom_eq_cons separator rest
      rw [hsplit] at h ih
      rcases List.mem_cons.mp h with rfl | h
      · exact ((List.prefix_cons_inj c).mpr hprefix).isInfix
      · exact List.infix_cons (ih (List.mem_cons_of_mem first h))

theorem infix_of_mem_splitAll (h : part ∈ splitAll separator text) : part <:+: text := infix_of_mem_splitFrom h

theorem splitFrom_length (separator text part : Text) :
    splitFrom separator part.length (part ++ text) = splitFrom separator 0 text := by
  induction part with
  | nil => rfl
  | cons c rest ih => exact ih

theorem splitAll_separator_append (hne : separator ≠ []) (text : Text) :
    splitAll separator (separator ++ text) = [] :: splitAll separator text := by
  obtain ⟨c, rest, rfl⟩ := List.exists_cons_of_ne_nil hne
  have starts : startsWith (c :: (rest ++ text)) (c :: rest) :=
    List.isPrefixOf_iff_prefix.mpr (List.prefix_append (c :: rest) text)
  rw [splitAll, List.cons_append, splitFrom, if_pos starts]
  exact congrArg ([] :: ·) (splitFrom_length (c :: rest) text rest)

theorem splitAll_append (hne : separator ≠ []) (h : IsUnsplit separator text) :
    splitAll separator (separator ++ text) = [[], text] := by
  rw [splitAll_separator_append hne, h]

theorem consFirst_eq_modifyHead (hne : parts ≠ []) (c : Char) : consFirst c parts = parts.modifyHead (c :: ·) := by
  obtain ⟨first, others, rfl⟩ := List.exists_cons_of_ne_nil hne
  rfl

theorem splitAll_cons (h : ¬separator <+: c :: text) :
    splitAll separator (c :: text) = (splitAll separator text).modifyHead (c :: ·) := by
  have apart : startsWith (c :: text) separator = false := by
    rw [Bool.eq_false_iff]
    exact fun starts => h (List.isPrefixOf_iff_prefix.mp starts)
  rw [splitAll, splitFrom, apart, ← consFirst_eq_modifyHead (splitAll_ne_nil separator text)]
  rfl

theorem splitAll_append_of_not_mem (h : c ∉ lead) (tail text : Text) :
    splitAll (c :: tail) (lead ++ text) = (splitAll (c :: tail) text).modifyHead (lead ++ ·) := by
  induction lead with
  | nil =>
      obtain ⟨first, others, hsplit⟩ := List.exists_cons_of_ne_nil (splitAll_ne_nil (c :: tail) text)
      rw [List.nil_append, hsplit]
      rfl
  | cons d lead ih =>
      obtain ⟨hd, hlead⟩ := List.ne_and_not_mem_of_not_mem_cons h
      rw [List.cons_append, splitAll_cons fun starts => hd (List.cons_prefix_cons.mp starts).1, ih hlead,
        List.modifyHead_modifyHead]
      rfl

theorem isUnsplit_of_not_infix (h : ¬separator <:+: text) : IsUnsplit separator text := by
  induction text with
  | nil => exact isUnsplit_nil separator
  | cons c text ih =>
      have rest : splitFrom separator 0 text = [text] := ih fun inside => h (List.infix_cons inside)
      have apart : startsWith (c :: text) separator = false := by
        rw [Bool.eq_false_iff]
        exact fun starts => h (List.isPrefixOf_iff_prefix.mp starts).isInfix
      rw [IsUnsplit, splitAll, splitFrom, apart, rest]
      rfl

/-- A separator that stands neither in a part nor across its end splits the text behind the part. -/
theorem splitAll_append_append {tail : Text} (h : ¬c :: tail <:+: part ++ (c :: tail).dropLast)
    (htext : IsUnsplit (c :: tail) text) : splitAll (c :: tail) (part ++ (c :: tail ++ text)) = [part, text] := by
  induction part with
  | nil => exact splitAll_append (List.cons_ne_nil c tail) htext
  | cons d part ih =>
      have rest : splitFrom (c :: tail) 0 (part ++ (c :: tail ++ text)) = [part, text] :=
        ih fun inside => h (List.infix_cons inside)
      have apart : startsWith (d :: (part ++ (c :: tail ++ text))) (c :: tail) = false := by
        rw [Bool.eq_false_iff]
        intro starts
        -- it would end in front of the last character of the separator behind the part
        have reached : d :: part ++ (c :: tail).dropLast <+: d :: (part ++ (c :: tail ++ text)) :=
          (List.prefix_append_right_inj (d :: part)).mpr ((List.dropLast_prefix _).trans (List.prefix_append _ _))
        refine h (List.prefix_of_prefix_length_le (List.isPrefixOf_iff_prefix.mp starts) reached ?_).isInfix
        simp only [List.cons_append, List.length_cons, List.length_append, List.length_dropLast]
        omega
      rw [splitAll, List.cons_append, splitFrom, apart, rest]
      rfl

theorem isUnsplit_of_not_mem (h : c ∉ text) (tail : Text) : IsUnsplit (c :: tail) text := by
  induction text with
  | nil => rfl
  | cons d text ih =>
      obtain ⟨hd, htext⟩ := List.ne_and_not_mem_of_not_mem_cons h
      have rest : splitFrom (c :: tail) 0 text = [text] := ih htext
      rw [IsUnsplit, splitAll, splitFrom, rest]
      simp [startsWith, hd, consFirst]

/-! ## A separator of one character -/

theorem join_eq_intercalate (c : Char) (parts : List Text) : join [c] parts = [c].intercalate parts := by
  fun_induction join [c] parts with
  | case1 => rfl
  | case2 part => simp [List.intercalate]
  | case3 part next rest ih => simp [ih, List.intercalate]

theorem splitOn_join (h : ∀ part ∈ parts, c ∉ part) (hne : parts ≠ []) : (join [c] parts).splitOn c = parts := by
  rw [join_eq_intercalate]
  exact List.splitOn_intercalate c h hne

theorem not_mem_of_mem_splitOn (h : part ∈ text.splitOn c) : c ∉ part := by
  induction text generalizing part with
  | nil =>
      rw [List.splitOn_nil, List.mem_singleton] at h
      exact h ▸ List.not_mem_nil
  | cons d text ih =>
      obtain ⟨first, others, hsplit⟩ := List.exists_cons_of_ne_nil (List.splitOn_ne_nil c text)
      rw [hsplit] at ih
      rw [List.splitOn_cons_eq_if_modifyHead, hsplit] at h
      split at h
      · rcases List.mem_cons.mp h with rfl | h
        · exact List.not_mem_nil
        · exact ih h
      next apart =>
        rcases List.mem_cons.mp h with rfl | h
        · exact List.not_mem_cons_of_ne_of_not_mem (Ne.symm (by simpa using apart)) (ih List.mem_cons_self)
        · exact ih (List.mem_cons_of_mem first h)

theorem join_splitOn (c : Char) (text : Text) : join [c] (text.splitOn c) = text := by
  rw [join_eq_intercalate]
  exact List.intercalate_splitOn c

end Changelog.Text
