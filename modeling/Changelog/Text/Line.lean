import Changelog.Text.Blank

/-! # Lines

A text is read line by line. Lines end at any of the line boundaries below, a carriage return with its
line feed being one of them; a boundary at the very end opens no further line.
-/

namespace Changelog

def isLineEnd (c : Char) : Bool :=
  let n := c.toNat
  (10 ≤ n && n ≤ 13) || (28 ≤ n && n ≤ 30) || n == 0x85 || n == 0x2028 || n == 0x2029

namespace Text

/-- The lines of a text without their boundaries. -/
def lines : Text → List Text
  | [] => []
  | '\r' :: '\n' :: rest => [] :: lines rest
  | c :: rest => if isLineEnd c then [] :: lines rest else consFirst c (lines rest)

/-- `lines` as one text, with a line feed between neighbours. -/
def unlines (lines : List Text) : Text := join ['\n'] lines

/-- Every carriage return, with the line feed after it if there is one, becomes a line feed. -/
def unifyNewlines : Text → Text
  | [] => []
  | '\r' :: '\n' :: rest => '\n' :: unifyNewlines rest
  | c :: rest => (if c = '\r' then '\n' else c) :: unifyNewlines rest

/-- Column reached by the white space in front of a line from `column` on; a tab goes on to the next
    multiple of four. -/
def indentFrom (column : Nat) : Text → Nat
  | [] => column
  | c :: rest =>
    if c = '\t' then indentFrom (column + (4 - column % 4)) rest
    else if isBlankChar c then indentFrom (column + 1) rest
    else column

/-- Width of the white space in front of a line. -/
def indent (line : Text) : Nat := indentFrom 0 line

theorem not_isLineEnd_of_mem_lines {text line : Text} (h : line ∈ lines text) : ∀ c ∈ line, isLineEnd c = false := by
  fun_induction lines text generalizing line with
  | case1 => simp at h
  | case2 rest ih =>
    rcases List.mem_cons.mp h with rfl | h
    · simp
    · exact ih h
  | case3 c rest _ hc ih =>
    rcases List.mem_cons.mp h with rfl | h
    · simp
    · exact ih h
  | case4 c rest _ hc ih =>
    cases hrest : lines rest with
    | nil => simp_all [consFirst]
    | cons first others =>
      rw [hrest] at h ih
      rcases List.mem_cons.mp h with rfl | h
      · intro d hd
        rcases List.mem_cons.mp hd with rfl | hd
        · simpa using hc
        · exact ih (List.mem_cons_self ..) d hd
      · exact ih (List.mem_cons_of_mem _ h)

end Text

end Changelog
