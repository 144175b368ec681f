import Changelog.Proofs.Text.Lines

/-! # Texts written row by row

What is printed has line feeds for its only line boundaries. Its rows, the lines up to its very end, are what splitting
at line feeds gives, they make up the text again, and those of texts written one below the other stand one below the
other.
-/

namespace Changelog

theorem isBlankChar_of_isLineEnd {c : Char} (h : isLineEnd c) : isBlankChar c := by
  simp only [isLineEnd, isBlankChar, Bool.or_eq_true, Bool.and_eq_true, decide_eq_true_eq, beq_iff_eq] at h ⊢
  omega

namespace Text

variable {text line : Text} {parts written : List Text}

/-- Is the line feed the only line boundary of the text? -/
def IsFed (text : Text) : Prop := ∀ c ∈ text, isLineEnd c → c = '\n'

/-- The lines of a text that is written with a line feed at its end. -/
def rows (text : Text) : List Text := lines (text ++ ['\n'])

@[simp] theorem isFed_cons (c : Char) (text : Text) : IsFed (c :: text) ↔ (isLineEnd c → c = '\n') ∧ text.IsFed :=
  List.forall_mem_cons

@[simp] theorem isFed_nil : IsFed [] := nofun

theorem IsUnbroken.isFed (h : text.IsUnbroken) : text.IsFed := by
  intro c hc isEnd
  rw [h c hc] at isEnd
  contradiction

theorem isFed_join {separator : Text} (hseparator : separator.IsFed) (h : ∀ part ∈ parts, part.IsFed) :
    (join separator parts).IsFed := by
  intro c hc
  rcases mem_join hc with hc | ⟨part, hpart, hc⟩
  · exact hseparator c hc
  · exact h part hpart c hc

theorem isFed_unlines (h : ∀ part ∈ parts, part.IsUnbroken) : (unlines parts).IsFed :=
  isFed_join (by simp) fun part hpart => (h part hpart).isFed

/-! ## Rows -/

theorem rows_ne_nil (text : Text) : rows text ≠ [] := lines_ne_nil (by simp)

theorem isUnbroken_of_mem_rows (h : line ∈ rows text) : line.IsUnbroken := isUnbroken_of_mem_lines h

theorem rows_unlines (hne : parts ≠ []) (h : ∀ line ∈ parts, line.IsUnbroken) : rows (unlines parts) = parts :=
  lines_unlines hne h

theorem rows_append (text other : Text) : rows (text ++ '\n' :: other) = rows text ++ rows other := by
  rw [rows, List.append_assoc, List.cons_append, lines_append]
  rfl

theorem rows_cons {c : Char} (h : IsFed (c :: text)) :
    rows (c :: text) = if c = '\n' then [] :: rows text else consFirst c (rows text) := by
  have hc := (isFed_cons c text).mp h
  have apart : ∀ rest, c = '\r' → text ++ ['\n'] ≠ '\n' :: rest := by
    rintro rest rfl
    exact absurd (hc.1 (by decide)) (by decide)
  rw [rows, List.cons_append, lines_cons apart]
  by_cases hfeed : c = '\n'
  · subst hfeed
    rfl
  · have inside : isLineEnd c = false := by
      cases hend : isLineEnd c with
      | false => rfl
      | true => exact absurd (hc.1 hend) hfeed
    rw [if_neg hfeed, inside]
    rfl

theorem splitOn_eq_rows (h : text.IsFed) : text.splitOn '\n' = rows text := by
  induction text with
  | nil => rfl
  | cons c text ih =>
      have later := ih ((isFed_cons c text).mp h).2
      obtain ⟨first, others, hrows⟩ := List.exists_cons_of_ne_nil (rows_ne_nil text)
      rw [List.splitOn_cons_eq_if_modifyHead, rows_cons h, later, hrows]
      by_cases hfeed : c = '\n'
      · simp [hfeed]
      · simp [hfeed, consFirst]

theorem join_consFirst (separator : Text) (c : Char) (hne : parts ≠ []) :
    join separator (consFirst c parts) = c :: join separator parts := by
  obtain ⟨first, others, rfl⟩ := List.exists_cons_of_ne_nil hne
  cases others <;> rfl

theorem unlines_rows (h : text.IsFed) : unlines (rows text) = text := by
  induction text with
  | nil => rfl
  | cons c text ih =>
      have later := ih ((isFed_cons c text).mp h).2
      rw [rows_cons h]
      split
      next hfeed =>
        obtain ⟨first, others, hrows⟩ := List.exists_cons_of_ne_nil (rows_ne_nil text)
        rw [hrows] at later ⊢
        rw [hfeed, ← later]
        rfl
      next => rw [unlines, join_consFirst _ _ (rows_ne_nil text), ← unlines, later]

/-! ## The last row -/

/-- Lines the last of which is not blank. -/
def IsRounded (lines : List Text) : Prop := ∃ front last, lines = front ++ [last] ∧ isBlank last = false

theorem IsRounded.append (h : IsRounded written) (front : List Text) : IsRounded (front ++ written) := by
  obtain ⟨others, last, rfl, hlast⟩ := h
  exact ⟨front ++ others, last, by rw [List.append_assoc], hlast⟩

theorem isRounded_singleton (h : isBlank line = false) : IsRounded [line] := ⟨[], line, rfl, h⟩

theorem apart_concat {c d : Char} (hc : c ≠ '\n') (single : ∀ rest, d = '\r' → text = '\n' :: rest → False) (rest : Text)
    (hd : d = '\r') : text ++ [c] ≠ '\n' :: rest := by
  intro heq
  cases text with
  | nil => exact hc (List.cons.inj heq).1
  | cons e text => exact single text hd (by rw [(List.cons.inj heq).1])

theorem exists_last_of_lines {c : Char} (h : isLineEnd c = false) (text : Text) :
    ∃ front last, lines (text ++ [c]) = front ++ [last] ∧ c ∈ last := by
  have notFeed : c ≠ '\n' := by
    rintro rfl
    exact absurd h (by decide)
  fun_induction lines text with
  | case1 =>
      refine ⟨[], [c], ?_, List.mem_singleton_self c⟩
      rw [List.nil_append, lines_cons (by simp), h]
      rfl
  | case2 text ih =>
      obtain ⟨front, last, hlines, hc⟩ := ih
      exact ⟨[] :: front, last, by simpa [lines] using hlines, hc⟩
  | case3 d text single isEnd ih =>
      obtain ⟨front, last, hlines, hc⟩ := ih
      refine ⟨[] :: front, last, ?_, hc⟩
      rw [List.cons_append, lines_cons (apart_concat notFeed single), if_pos isEnd, hlines]
      rfl
  | case4 d text single isEnd ih =>
      obtain ⟨front, last, hlines, hc⟩ := ih
      rw [List.cons_append, lines_cons (apart_concat notFeed single), if_neg isEnd, hlines]
      cases front with
      | nil => exact ⟨[], d :: last, rfl, List.mem_cons_of_mem d hc⟩
      | cons first front => exact ⟨(d :: first) :: front, last, rfl, hc⟩

theorem lines_of_ne_nil (h : line.IsUnbroken) (hne : line ≠ []) : lines line = [line] := by
  induction line with
  | nil => contradiction
  | cons c line ih =>
      obtain ⟨hc, hline⟩ := (isUnbroken_cons c line).mp h
      have apart : ∀ rest, c = '\r' → line ≠ '\n' :: rest := by
        rintro rest rfl
        exact absurd hc (by decide)
      rw [lines_cons apart, hc]
      cases line with
      | nil => rfl
      | cons d line => rw [ih hline (List.cons_ne_nil d line)]; rfl

end Text

end Changelog
