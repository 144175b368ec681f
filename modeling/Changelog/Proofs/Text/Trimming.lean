import Changelog.Proofs.Text.Lines
import Changelog.Proofs.Text.Parts

/-! # White space around lines

White space around a text goes over its lines. The blank lines at both ends are dropped, the first and the last line that are
left lose white space on their outer side, and every line between them stays as it is.
-/

namespace Changelog.Text

variable {line text : Text} {parts : List Text}

/-- Lines without the blank ones in front and without white space in front of the first one. -/
def trimLead : List Text → List Text
  | [] => []
  | line :: rest => if isBlank line then trimLead rest else stripLead line :: rest

/-- Lines without the blank ones at the end and without white space behind the last one. -/
def trimTail : List Text → List Text
  | [] => []
  | line :: rest =>
    match trimTail rest with
    | [] => if isBlank line then [] else [stripTail line]
    | next :: later => line :: next :: later

def trimmed (parts : List Text) : List Text := trimTail (trimLead parts)

/-! ## Lines as one text -/

theorem length_unlines_cons (hne : parts ≠ []) (line : Text) :
    (unlines (line :: parts)).length = line.length + ((unlines parts).length + 1) := by
  rw [unlines_cons_of_ne_nil hne, List.length_append, List.length_cons]

section

variable {change : Text → Text} (shorter : ∀ line, (change line).length ≤ line.length)

include shorter

theorem length_unlines_map_le (parts : List Text) : (unlines (parts.map change)).length ≤ (unlines parts).length := by
  induction parts with
  | nil => exact Nat.le_refl 0
  | cons line rest ih =>
      cases rest with
      | nil => exact shorter line
      | cons next rest =>
          have changed : (next :: rest).map change ≠ [] := List.cons_ne_nil _ _
          rw [List.map_cons, length_unlines_cons changed, length_unlines_cons (List.cons_ne_nil next rest)]
          exact Nat.add_le_add (shorter line) (Nat.succ_le_succ ih)

/-- If no line gets longer and the text does not get shorter, every line keeps its length. -/
theorem length_eq_of_length_unlines_le (h : (unlines parts).length ≤ (unlines (parts.map change)).length) :
    ∀ line ∈ parts, (change line).length = line.length := by
  induction parts with
  | nil => exact nofun
  | cons line rest ih =>
      have own := shorter line
      cases rest with
      | nil => exact List.forall_mem_singleton.mpr (Nat.le_antisymm own h)
      | cons next rest =>
          have changed : (next :: rest).map change ≠ [] := List.cons_ne_nil _ _
          have others := length_unlines_map_le shorter (next :: rest)
          rw [List.map_cons, length_unlines_cons changed, length_unlines_cons (List.cons_ne_nil next rest)] at h
          exact List.forall_mem_cons.mpr ⟨by omega, ih (by omega)⟩

end

/-! ## White space in front -/

theorem isBlank_iff : isBlank text ↔ ∀ c ∈ text, isBlankChar c := List.all_eq_true

theorem stripLead_append_of_isBlank (h : isBlank line) (text : Text) : stripLead (line ++ text) = stripLead text :=
  List.dropWhile_append_of_pos (isBlank_iff.mp h)

theorem stripLead_append (h : ¬isBlank line) (text : Text) : stripLead (line ++ text) = stripLead line ++ text := by
  have kept : (line.dropWhile isBlankChar).isEmpty = false := by
    rw [List.isEmpty_eq_false_iff, ne_eq, List.dropWhile_eq_nil_iff]
    exact fun blank => h (isBlank_iff.mpr blank)
  rw [stripLead, List.dropWhile_append, kept]
  rfl

theorem stripLead_unlines (parts : List Text) : stripLead (unlines parts) = unlines (trimLead parts) := by
  induction parts with
  | nil => rfl
  | cons line rest ih =>
      cases rest with
      | nil =>
          rw [trimLead]
          split
          next blank => exact List.dropWhile_eq_nil_iff.mpr (isBlank_iff.mp blank)
          next => rfl
      | cons next rest =>
          rw [trimLead, unlines_cons_of_ne_nil (List.cons_ne_nil next rest)]
          split
          next blank =>
            rw [stripLead_append_of_isBlank blank, ← ih]
            rfl
          next filled =>
            rw [stripLead_append filled, unlines_cons_of_ne_nil (List.cons_ne_nil next rest)]

theorem tail_trimLead_isSuffix (parts : List Text) : (trimLead parts).tail <:+ parts := by
  fun_induction trimLead parts with
  | case1 => exact List.suffix_rfl
  | case2 line rest _ ih => exact ih.trans (List.suffix_cons line rest)
  | case3 line rest _ => exact List.suffix_cons line rest

theorem exists_of_mem_trimLead (h : line ∈ trimLead parts) : ∃ whole ∈ parts, line <:+: whole := by
  fun_induction trimLead parts with
  | case1 => contradiction
  | case2 first rest _ ih =>
      obtain ⟨whole, hwhole, hinfix⟩ := ih h
      exact ⟨whole, List.mem_cons_of_mem first hwhole, hinfix⟩
  | case3 first rest _ =>
      rcases List.mem_cons.mp h with rfl | h
      · exact ⟨first, List.mem_cons_self, (List.dropWhile_suffix isBlankChar).isInfix⟩
      · exact ⟨line, List.mem_cons_of_mem first h, List.infix_rfl⟩

/-! ## White space at the end -/

theorem stripTail_eq_nil_iff : stripTail text = [] ↔ isBlank text := by
  rw [stripTail, dropTailWhile, List.reverse_eq_nil_iff, List.dropWhile_eq_nil_iff, isBlank_iff]
  exact forall_congr' fun c => by rw [List.mem_reverse]

theorem getLast?_of_trimTail (h : (trimTail parts).getLast? = some line) :
    line ≠ [] ∧ ∀ c ∈ line.getLast?, isBlankChar c = false := by
  fun_induction trimTail parts with
  | case1 => contradiction
  | case2 => contradiction
  | case3 first rest _ filled _ =>
      obtain rfl : stripTail first = line := by simpa using h
      exact ⟨fun empty => filled (stripTail_eq_nil_iff.mp empty), fun c hc => eq_false_of_getLast?_dropTailWhile hc⟩
  | case4 first rest next later htail ih =>
      rw [htail] at ih
      rw [List.getLast?_cons_cons] at h
      exact ih h

theorem unlines_trimTail_ne_nil (h : trimTail parts ≠ []) : unlines (trimTail parts) ≠ [] := by
  intro empty
  refine (getLast?_of_trimTail (List.getLast?_eq_some_getLast h)).1 (List.infix_nil.mp ?_)
  rw [← empty]
  exact infix_join_of_mem ['\n'] (List.getLast_mem h)

theorem stripTail_unlines (parts : List Text) : stripTail (unlines parts) = unlines (trimTail parts) := by
  have alone (line : Text) : unlines (if isBlank line then [] else [stripTail line]) = stripTail line := by
    split
    next blank => exact (stripTail_eq_nil_iff.mpr blank).symm
    next => rfl
  induction parts with
  | nil => rfl
  | cons line rest ih =>
      cases rest with
      | nil => exact (alone line).symm
      | cons next rest =>
          rw [unlines_cons_of_ne_nil (List.cons_ne_nil next rest), trimTail]
          cases htail : trimTail (next :: rest) with
          | nil =>
              rw [htail] at ih
              have blank := isBlank_iff.mp (stripTail_eq_nil_iff.mp ih)
              rw [stripTail, dropTailWhile_append_of_forall (List.forall_mem_cons.mpr ⟨rfl, blank⟩)]
              exact (alone line).symm
          | cons kept later =>
              have filled := unlines_trimTail_ne_nil (htail ▸ List.cons_ne_nil kept later)
              rw [← ih, ne_eq, stripTail_eq_nil_iff, isBlank_iff] at filled
              push Not at filled
              obtain ⟨c, hc, filled⟩ := filled
              rw [List.append_cons, stripTail, dropTailWhile_append_of_exists ⟨c, hc, by simpa using filled⟩]
              show line ++ ['\n'] ++ stripTail (unlines (next :: rest)) = _
              rw [ih, htail]
              rfl

theorem dropLast_trimTail_isPrefix (parts : List Text) : (trimTail parts).dropLast <+: parts := by
  fun_induction trimTail parts with
  | case1 => exact List.prefix_rfl
  | case2 => exact List.nil_prefix
  | case3 => exact List.nil_prefix
  | case4 line rest next later htail ih =>
      rw [htail] at ih
      rw [List.dropLast_cons_cons]
      exact (List.prefix_cons_inj line).mpr ih

theorem exists_of_mem_trimTail (h : line ∈ trimTail parts) : ∃ whole ∈ parts, line <:+: whole := by
  fun_induction trimTail parts with
  | case1 => contradiction
  | case2 => contradiction
  | case3 first rest _ _ _ =>
      obtain rfl := List.mem_singleton.mp h
      exact ⟨first, List.mem_cons_self, (dropTailWhile_isPrefix isBlankChar first).isInfix⟩
  | case4 first rest next later htail ih =>
      rcases List.mem_cons.mp h with rfl | h
      · exact ⟨line, List.mem_cons_self, List.infix_rfl⟩
      · obtain ⟨whole, hwhole, hinfix⟩ := ih (htail ▸ h)
        exact ⟨whole, List.mem_cons_of_mem first hwhole, hinfix⟩

/-! ## White space at both ends -/

theorem strip_unlines (parts : List Text) : strip (unlines parts) = unlines (trimmed parts) := by
  rw [strip, stripLead_unlines, stripTail_unlines, trimmed]

theorem exists_of_mem_trimmed (h : line ∈ trimmed parts) : ∃ whole ∈ parts, line <:+: whole := by
  obtain ⟨inner, hinner, hline⟩ := exists_of_mem_trimTail h
  obtain ⟨whole, hwhole, hinner⟩ := exists_of_mem_trimLead hinner
  exact ⟨whole, hwhole, hline.trans hinner⟩

theorem mem_of_mem_middle_trimmed (h : line ∈ (trimmed parts).tail.dropLast) : line ∈ parts := by
  rw [trimmed, ← List.tail_dropLast] at h
  obtain ⟨last, hlast⟩ := dropLast_trimTail_isPrefix (trimLead parts)
  have inner : line ∈ (trimLead parts).tail := by
    rw [← hlast, List.tail_append_of_ne_nil (List.ne_nil_of_mem (List.mem_of_mem_tail h))]
    exact List.mem_append_left last h
  exact (tail_trimLead_isSuffix parts).subset inner

end Changelog.Text
