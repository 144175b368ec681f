import Changelog.Text.Line

/-! # Lines put together

Lines that hold no boundary come back when they are written one below the other and read again.
-/

namespace Changelog.Text

variable {text line : Text} {parts : List Text}

def IsUnbroken (text : Text) : Prop := ∀ c ∈ text, isLineEnd c = false

instance (text : Text) : Decidable text.IsUnbroken := inferInstanceAs (Decidable (∀ c ∈ text, _))

theorem IsUnbroken.mono {other : Text} (h : text.IsUnbroken) (hsub : other ⊆ text) : other.IsUnbroken :=
  fun c hc => h c (hsub hc)

@[simp] theorem isUnbroken_append (text other : Text) :
    IsUnbroken (text ++ other) ↔ text.IsUnbroken ∧ other.IsUnbroken := List.forall_mem_append

@[simp] theorem isUnbroken_cons (c : Char) (text : Text) :
    IsUnbroken (c :: text) ↔ isLineEnd c = false ∧ text.IsUnbroken := List.forall_mem_cons

@[simp] theorem isUnbroken_nil : IsUnbroken [] := nofun

theorem isUnbroken_of_mem_lines (h : line ∈ lines text) : line.IsUnbroken := not_isLineEnd_of_mem_lines h

theorem consFirst_ne_nil (c : Char) (parts : List Text) : consFirst c parts ≠ [] := by
  cases parts <;> simp [consFirst]

theorem consFirst_append (c : Char) (hne : parts ≠ []) (others : List Text) :
    consFirst c (parts ++ others) = consFirst c parts ++ others := by
  cases parts with
  | nil => contradiction
  | cons part parts => rfl

theorem lines_ne_nil (hne : text ≠ []) : lines text ≠ [] := by
  fun_cases lines text with
  | case1 => contradiction
  | case2 => simp
  | case3 => simp
  | case4 => exact consFirst_ne_nil _ _

/-- A character ends the first line or stands at its start, unless it is the first half of a boundary. -/
theorem lines_cons {c : Char} (h : ∀ rest, c = '\r' → text ≠ '\n' :: rest) :
    lines (c :: text) = if isLineEnd c then [] :: lines text else consFirst c (lines text) :=
  lines.eq_3 c text fun rest hc => h rest hc

/-- A line feed separates the lines in front of it from those behind it. -/
theorem lines_append (text rest : Text) : lines (text ++ '\n' :: rest) = lines (text ++ ['\n']) ++ lines rest := by
  fun_induction lines text with
  | case1 => rfl
  | case2 text ih => simpa [lines] using ih
  | case3 c text single isEnd ih =>
      cases text with
      | nil =>
          by_cases hc : c = '\r'
          · simp [lines, hc]
          · simp [lines, hc, isEnd, show isLineEnd '\n' by decide]
      | cons d text =>
          have apart : ∀ tail rest, c = '\r' → d :: text ++ tail ≠ '\n' :: rest := by
            intro tail rest hc hd
            exact single text hc (by rw [(List.cons.inj hd).1])
          show lines (c :: (d :: text ++ '\n' :: rest)) = lines (c :: (d :: text ++ ['\n'])) ++ lines rest
          rw [lines_cons (apart _), lines_cons (apart _), if_pos isEnd, if_pos isEnd, ih]
          rfl
  | case4 c text single isEnd ih =>
      have notReturn : c ≠ '\r' := by
        rintro rfl
        exact isEnd (by decide)
      have apart : ∀ tail rest, c = '\r' → text ++ tail ≠ '\n' :: rest := fun _ _ hc => absurd hc notReturn
      rw [List.cons_append, List.cons_append, lines_cons (apart _), lines_cons (apart _), if_neg isEnd, if_neg isEnd, ih,
        consFirst_append c (lines_ne_nil (by simp))]

theorem mem_join {c : Char} {separator : Text} {parts : List Text} (h : c ∈ join separator parts) :
    c ∈ separator ∨ ∃ part ∈ parts, c ∈ part := by
  induction parts with
  | nil => contradiction
  | cons part parts ih =>
      cases parts with
      | nil => exact Or.inr ⟨part, List.mem_cons_self, h⟩
      | cons next parts =>
          rw [join, List.mem_append, List.mem_append] at h
          rcases h with (h | h) | h
          · exact Or.inr ⟨part, List.mem_cons_self, h⟩
          · exact Or.inl h
          · rcases ih h with h | ⟨other, hother, hc⟩
            · exact Or.inl h
            · exact Or.inr ⟨other, List.mem_cons_of_mem part hother, hc⟩

theorem lines_of_isUnbroken (h : line.IsUnbroken) : lines (line ++ ['\n']) = [line] := by
  induction line with
  | nil => rfl
  | cons c line ih =>
      have notEnd : isLineEnd c = false := h c List.mem_cons_self
      have apart : ∀ rest, c = '\r' → line ++ ['\n'] ≠ '\n' :: rest := by
        rintro rest rfl
        exact absurd notEnd (by decide)
      rw [List.cons_append, lines_cons apart, ih fun d hd => h d (List.mem_cons_of_mem c hd), notEnd]
      rfl

theorem unlines_cons_of_ne_nil (hne : parts ≠ []) : unlines (line :: parts) = line ++ '\n' :: unlines parts := by
  obtain ⟨next, rest, rfl⟩ := List.exists_cons_of_ne_nil hne
  simp [unlines, join]

theorem lines_unlines (hne : parts ≠ []) (h : ∀ line ∈ parts, line.IsUnbroken) : lines (unlines parts ++ ['\n']) = parts := by
  induction parts with
  | nil => contradiction
  | cons line rest ih =>
      have unbroken : line.IsUnbroken := h line List.mem_cons_self
      cases rest with
      | nil => exact lines_of_isUnbroken unbroken
      | cons next rest =>
          have later := ih (List.cons_ne_nil next rest) fun other hother => h other (List.mem_cons_of_mem line hother)
          rw [unlines] at later ⊢
          rw [join, List.append_assoc, List.append_assoc, List.singleton_append, lines_append, lines_of_isUnbroken unbroken,
            later]
          rfl

end Changelog.Text
