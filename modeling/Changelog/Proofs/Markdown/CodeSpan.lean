import Changelog.Markdown.Inline
import Mathlib.Data.List.Basic

/-! # Code in backticks

Code is read up to a closing run that is as long as the opening one, and printed between one or two backticks. Code
without backticks is always read back between single ones; other code is read back between two if it begins with no
backtick and holds no run of two that would close it.
-/

namespace Changelog.Inline

variable {text code rest : Text} {k : Nat}

def ticks (k : Nat) : Text := List.replicate k '\x60'

theorem head?_ticks (positive : 1 ≤ k) : (ticks k).head? = some '\x60' := by
  obtain ⟨n, rfl⟩ := Nat.exists_eq_add_of_le' positive
  rfl

theorem getLast?_ticks (positive : 1 ≤ k) : (ticks k).getLast? = some '\x60' := by
  obtain ⟨n, rfl⟩ := Nat.exists_eq_add_of_le' positive
  rw [ticks, List.replicate_succ', List.getLast?_concat]

theorem length_takeWhile_ticks (h : rest.head? ≠ some '\x60') (k : Nat) :
    ((ticks k ++ rest).takeWhile (· == '\x60')).length = k := by
  rw [ticks, List.takeWhile_append_of_pos (by simp), List.length_append, List.length_replicate]
  cases rest with
  | nil => rfl
  | cons c rest =>
      have hc : c ≠ '\x60' := fun hc => h (by rw [hc]; rfl)
      simp [hc]

theorem eq_of_length_takeWhile (h : (text.takeWhile (· == '\x60')).length = k) :
    text = ticks k ++ text.drop k ∧ (text.drop k).head? ≠ some '\x60' := by
  have run : text.takeWhile (· == '\x60') = ticks k :=
    List.eq_replicate_iff.mpr ⟨h, fun c hc => by simpa using List.all_eq_true.mp List.all_takeWhile c hc⟩
  have behind : text.drop k = text.dropWhile (· == '\x60') := by
    conv_lhs => rw [← List.takeWhile_append_dropWhile (p := (· == '\x60')) (l := text), ← h, List.drop_left]
  refine ⟨?_, ?_⟩
  · conv_lhs => rw [← List.takeWhile_append_dropWhile (p := (· == '\x60')) (l := text), run, ← behind]
  · rw [behind]
    intro hhead
    have := List.head?_dropWhile_not (· == '\x60') text
    rw [hhead] at this
    simp at this

theorem take_eq_ticks (h : k ≤ (text.takeWhile (· == '\x60')).length) : text.take k = ticks k := by
  have run : ∀ c ∈ (text.takeWhile (· == '\x60')).take k, c = '\x60' := fun c hc => by
    simpa using List.all_eq_true.mp List.all_takeWhile c (List.mem_of_mem_take hc)
  conv_lhs => rw [← List.takeWhile_append_dropWhile (p := (· == '\x60')) (l := text), List.take_append_of_le_length h]
  exact List.eq_replicate_iff.mpr ⟨List.length_take_of_le h, run⟩

/-- Code, and the closing run behind it. -/
structure IsCode (k : Nat) (text code rest : Text) : Prop where
  eq : text = code ++ (ticks k ++ rest)
  stops : rest.head? ≠ some '\x60'
  filled : ∃ front last, code = front ++ [last] ∧ last ≠ '\x60'

theorem isCode_of_readCode (h : readCode k text = some (code, rest)) : IsCode k text code rest := by
  fun_induction readCode k text generalizing code with
  | case1 => contradiction
  | case2 c text hc =>
      cases h
      obtain ⟨heq, stops⟩ := eq_of_length_takeWhile hc.2
      exact ⟨by rw [List.singleton_append, ← heq], stops, [], c, rfl, hc.1⟩
  | case3 => contradiction
  | case4 c text _ _ ih =>
      obtain ⟨⟨code, after⟩, hread, heq⟩ := Option.map_eq_some_iff.mp h
      cases heq
      obtain ⟨rfl, stops, front, last, rfl, hlast⟩ := ih hread
      exact ⟨rfl, stops, c :: front, last, rfl, hlast⟩

theorem length_takeWhile_of_filled (h : ∃ front last, code = front ++ [last] ∧ last ≠ '\x60') (after after' : Text) :
    ((code ++ after).takeWhile (· == '\x60')).length = ((code ++ after').takeWhile (· == '\x60')).length := by
  obtain ⟨front, last, rfl, hlast⟩ := h
  induction front with
  | nil => simp [hlast]
  | cons c front ih =>
      by_cases hc : c = '\x60'
      · simpa [hc] using ih
      · simp [hc]

theorem readCode_congr (h : readCode k text = some (code, rest)) {other : Text} (stops : other.head? ≠ some '\x60') :
    readCode k (code ++ (ticks k ++ other)) = some (code, other) := by
  fun_induction readCode k text generalizing code with
  | case1 => contradiction
  | case2 c text hc =>
      cases h
      rw [List.singleton_append, readCode, if_pos ⟨hc.1, length_takeWhile_ticks stops k⟩]
      simp [ticks]
  | case3 => contradiction
  | case4 c text open' inside ih =>
      obtain ⟨⟨code, after⟩, hread, heq⟩ := Option.map_eq_some_iff.mp h
      cases heq
      obtain ⟨rfl, -, filled⟩ := isCode_of_readCode hread
      rw [length_takeWhile_of_filled filled _ (ticks k ++ other)] at open'
      rw [List.cons_append, readCode, if_neg open', if_neg inside, ih hread]
      rfl

theorem readCode_one (h : readCode k text = some (code, rest)) (plain : '\x60' ∉ code) {other : Text}
    (stops : other.head? ≠ some '\x60') : readCode 1 (code ++ (ticks 1 ++ other)) = some (code, other) := by
  fun_induction readCode k text generalizing code with
  | case1 => contradiction
  | case2 c text hc =>
      cases h
      rw [List.singleton_append, readCode, if_pos ⟨hc.1, length_takeWhile_ticks stops 1⟩]
      rfl
  | case3 => contradiction
  | case4 c text _ inside ih =>
      obtain ⟨⟨code, after⟩, hread, heq⟩ := Option.map_eq_some_iff.mp h
      cases heq
      obtain ⟨-, -, front, last, rfl, hlast⟩ := isCode_of_readCode hread
      have later := List.not_mem_of_not_mem_cons plain
      have unclosed : ∀ after : Text, ((front ++ [last] ++ after).takeWhile (· == '\x60')).length ≠ 1 := by
        intro after
        cases front with
        | nil => simp [hlast]
        | cons d front =>
            have hd : d ≠ '\x60' := fun hd => later (by simp [hd])
            simp [hd]
      rw [List.cons_append, readCode, if_neg fun closed => unclosed _ closed.2, if_neg inside, ih hread later]
      rfl

/-! ## Spans -/

def codeNode (code : Text) : Node := { kind := .inlineCode, value := some code }

theorem mem_countDown {n : Nat} : k ∈ countDown n ↔ 1 ≤ k ∧ k ≤ n := by
  induction n with
  | zero =>
      simp only [countDown, List.not_mem_nil, false_iff]
      omega
  | succ n ih =>
      rw [countDown, List.mem_cons, ih]
      omega

/-- A code span is code between two runs of the same length. -/
theorem exists_of_readCodeSpan {construct : Construct} (h : readCodeSpan text = some construct) :
    ∃ k code rest, 1 ≤ k ∧ construct = { node := codeNode code, rest } ∧
      text = ticks k ++ (code ++ (ticks k ++ rest)) ∧ rest.head? ≠ some '\x60' ∧
      readCode k (code ++ (ticks k ++ rest)) = some (code, rest) := by
  obtain ⟨k, hk, h⟩ := List.exists_of_findSome?_eq_some h
  obtain ⟨⟨code, rest⟩, hread, rfl⟩ := Option.map_eq_some_iff.mp h
  obtain ⟨positive, small⟩ := mem_countDown.mp hk
  obtain ⟨heq, stops, -⟩ := isCode_of_readCode hread
  refine ⟨k, code, rest, positive, rfl, ?_, stops, heq ▸ hread⟩
  rw [← heq, ← take_eq_ticks small, List.take_append_drop]

/-- Code that begins with no backtick is read back between runs that close it nowhere else. -/
theorem readCodeSpan_ticks (positive : 1 ≤ k) (opens : code.head? ≠ some '\x60')
    (h : readCode k (code ++ (ticks k ++ rest)) = some (code, rest)) :
    readCodeSpan (ticks k ++ (code ++ (ticks k ++ rest))) = some { node := codeNode code, rest } := by
  obtain ⟨front, last, hcode, hlast⟩ := (isCode_of_readCode h).filled
  have head : (code ++ (ticks k ++ rest)).head? ≠ some '\x60' := by
    cases code with
    | nil => simp at hcode
    | cons c code => exact opens
  obtain ⟨n, rfl⟩ := Nat.exists_eq_add_of_le' positive
  rw [readCodeSpan, length_takeWhile_ticks head, countDown, List.findSome?_cons]
  have dropped : (ticks (n + 1) ++ (code ++ (ticks (n + 1) ++ rest))).drop (n + 1) = code ++ (ticks (n + 1) ++ rest) := by
    simp [ticks]
  rw [dropped, h]
  rfl

end Changelog.Inline
