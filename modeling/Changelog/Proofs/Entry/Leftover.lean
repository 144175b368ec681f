import Changelog.Proofs.Entry.Keys
import Changelog.Proofs.Text.Trimming

/-! # What references leave behind

A line is read once. What stands behind the full stop of its keys is kept, and so is a line that white space keeps from being a
reference; at an end of the description it loses the white space. A second look finds keys in such lines, and drops one more
carriage return at the end of each line. It finds nothing, and changes nothing, just if no line that is left is of one of
these kinds.
-/

namespace Changelog.Reference

open Text (ofString trimmed unlines)

variable {line : Text} {parts : List Text}

def unreturned (line : Text) : Text := (Text.dropTail? ['\r'] line).getD line

/-- What a line leaves: the text behind its keys, or all of it. -/
def left (line : Text) : Text := ((readLine line).map (·.2)).getD line

def leftLines (description : Text) : List Text := trimmed ((descriptionLines description).map left)

/-! ## Lines -/

theorem unreturned_isPrefix (line : Text) : unreturned line <+: line := by
  rw [unreturned]
  cases hdrop : Text.dropTail? ['\r'] line with
  | none => exact List.prefix_rfl
  | some front => exact ⟨['\r'], List.isSuffixOf?_eq_some_iff_append_eq.mp hdrop⟩

theorem unreturned_eq_self (h : line.getLast? ≠ some '\r') : unreturned line = line := by
  rw [unreturned, Text.dropTail?_eq_none, Option.getD_none]
  rintro ⟨front, rfl⟩
  exact h (List.getLast?_concat ..)

theorem length_unreturned (h : line.getLast? = some '\r') : (unreturned line).length < line.length := by
  obtain ⟨front, rfl⟩ := List.getLast?_eq_some_iff.mp h
  rw [unreturned, Text.dropTail?_append]
  simp

theorem left_of_none (h : readLine line = none) : left line = line := by
  rw [left, h]
  rfl

theorem map_left_of_none (h : ∀ line ∈ parts, readLine line = none) : parts.map left = parts :=
  (List.map_congr_left fun line hline => left_of_none (h line hline)).trans (List.map_id parts)

theorem left_isSuffix (line : Text) : left line <:+ line := by
  cases hread : readLine line with
  | none => exact ⟨[], left_of_none hread⟩
  | some read =>
      rw [left, hread]
      exact (of_readLine hread).2

theorem take_fst (description : Text) : (take description).1 = Text.strip (unlines ((descriptionLines description).map left)) := by
  refine congrArg (fun parts => Text.strip (unlines parts)) ?_
  rw [List.map_map]
  refine List.map_congr_left fun line _ => ?_
  rw [Function.comp_apply, left]
  cases readLine line <;> rfl

/-- A description refers to no issue just if none of its lines does. -/
theorem take_snd_eq_nil_iff {description : Text} :
    (take description).2 = [] ↔ ∀ line ∈ descriptionLines description, readLine line = none := by
  rw [List.eq_nil_iff_forall_not_mem]
  constructor
  · intro h line hline
    by_contra other
    obtain ⟨⟨keys, rest⟩, hread⟩ := Option.ne_none_iff_exists'.mp other
    obtain ⟨part, hpart⟩ := List.exists_mem_of_ne_nil _ (of_readLine hread).1.splitKeys_ne_nil
    exact h part (mem_take_iff.mpr ⟨line, hline, keys, rest, hread, hpart⟩)
  · intro h reference hreference
    obtain ⟨line, hline, keys, rest, hread, -⟩ := mem_take_iff.mp hreference
    rw [h line hline] at hread
    contradiction

theorem not_mem_of_mem_descriptionLines {description : Text} (h : line ∈ descriptionLines description) : '\n' ∉ line := by
  unfold descriptionLines at h
  split at h
  · contradiction
  next =>
    rcases List.mem_append.mp h with h | h
    · obtain ⟨part, hpart, rfl⟩ := List.mem_map.mp h
      have apart := Text.not_mem_of_mem_splitOn ((List.dropLast_subset _) hpart)
      exact fun feed => apart ((unreturned_isPrefix part).subset feed)
    · exact Text.not_mem_of_mem_splitOn (List.mem_of_getLast? (Option.mem_toList.mp h))

theorem descriptionLines_unlines (hne : parts ≠ []) (h : ∀ line ∈ parts, '\n' ∉ line)
    (hlast : ∀ line ∈ parts.getLast?, line.getLast? ≠ some '\r') : descriptionLines (unlines parts) = parts.map unreturned := by
  have whole : descriptionLines (unlines parts) = parts.dropLast.map unreturned ++ parts.getLast?.toList := by
    rw [descriptionLines, unlines, Text.splitOn_join h hne]
    cases parts with
    | nil => contradiction
    | cons => rfl
  obtain ⟨front, last, rfl⟩ : ∃ front last, parts = front ++ [last] := ⟨_, _, (List.dropLast_append_getLast hne).symm⟩
  rw [List.getLast?_concat] at hlast whole
  rw [whole, List.dropLast_concat, List.map_append, List.map_singleton, unreturned_eq_self (hlast last rfl)]
  rfl

/-! ## A second look -/

theorem not_mem_of_mem_leftLines {description : Text} (h : line ∈ leftLines description) : '\n' ∉ line := by
  obtain ⟨inner, hinner, hline⟩ := Text.exists_of_mem_trimmed h
  obtain ⟨whole, hwhole, rfl⟩ := List.mem_map.mp hinner
  exact fun feed => not_mem_of_mem_descriptionLines hwhole ((left_isSuffix whole).subset (hline.subset feed))

theorem take_fst_eq_unlines (description : Text) : (take description).1 = unlines (leftLines description) := by
  rw [take_fst, Text.strip_unlines, leftLines]

/-- The second look goes through the lines that the first one left, each without a carriage return at its end. -/
theorem descriptionLines_take {description : Text} (hne : leftLines description ≠ []) :
    descriptionLines (take description).1 = (leftLines description).map unreturned := by
  rw [take_fst_eq_unlines]
  refine descriptionLines_unlines hne (fun line hline => not_mem_of_mem_leftLines hline) fun line hline hreturn => ?_
  exact absurd ((Text.getLast?_of_trimTail hline).2 '\r' hreturn) (by decide)

/-- Where the second look changes nothing, it goes through no reference, and there was no carriage return to drop. -/
theorem of_take_take {description : Text} (h : take (take description).1 = ((take description).1, []))
    (hline : line ∈ leftLines description) : readLine line = none ∧ line.getLast? ≠ some '\r' := by
  have again := descriptionLines_take (List.ne_nil_of_mem hline)
  have unread : ∀ line ∈ leftLines description, readLine (unreturned line) = none := fun line hline =>
    take_snd_eq_nil_iff.mp (congrArg Prod.snd h) _ (again ▸ List.mem_map_of_mem hline)
  have text : (take description).1 = Text.strip (unlines ((leftLines description).map unreturned)) := by
    have first := congrArg Prod.fst h
    rw [take_fst, again] at first
    rw [← first, map_left_of_none (List.forall_mem_map.mpr unread)]
  -- a carriage return that is dropped would be missing in the length of the text
  have kept : ∀ line ∈ leftLines description, (unreturned line).length = line.length := by
    refine Text.length_eq_of_length_unlines_le (fun line => (unreturned_isPrefix line).length_le) ?_
    rw [← take_fst_eq_unlines, text]
    exact (Text.strip_isInfix _).length_le
  have noReturn : line.getLast? ≠ some '\r' := fun h => (length_unreturned h).ne (kept line hline)
  exact ⟨unreturned_eq_self noReturn ▸ unread line hline, noReturn⟩

theorem take_take {description : Text} (h : ∀ line ∈ leftLines description, readLine line = none ∧ line.getLast? ≠ some '\r') :
    take (take description).1 = ((take description).1, []) := by
  by_cases hne : leftLines description = []
  · rw [take_fst_eq_unlines, hne]
    rfl
  have again : descriptionLines (take description).1 = leftLines description := by
    rw [descriptionLines_take hne, List.map_congr_left fun line hline => unreturned_eq_self (h line hline).2]
    exact List.map_id _
  have unread : ∀ line ∈ leftLines description, readLine line = none := fun line hline => (h line hline).1
  refine Prod.ext ?_ (take_snd_eq_nil_iff.mpr (again ▸ unread))
  calc (take (take description).1).1
      = Text.strip (unlines (leftLines description)) := by rw [take_fst, again, map_left_of_none unread]
    _ = Text.strip (take description).1 := by rw [take_fst_eq_unlines]
    _ = (take description).1 := by rw [take_fst, Text.strip_strip]

/-- A second look finds no reference and leaves the description as it is just if no line that is left refers to issues or ends
    with a carriage return. Between the first and the last line, only what was left of a reference can be one. -/
theorem take_again_iff (description : Text) :
    (take (take description).1 = ((take description).1, []) ↔
      ∀ line ∈ leftLines description, readLine line = none ∧ line.getLast? ≠ some '\r') ∧
    ∀ line ∈ (leftLines description).tail.dropLast, ∀ keys rest, readLine line = some (keys, rest) →
      ∃ whole ∈ descriptionLines description, ∃ keys, readLine whole = some (keys, line) := by
  refine ⟨⟨fun h line hline => of_take_take h hline, take_take⟩, fun line hline keys rest hread => ?_⟩
  obtain ⟨whole, hwhole, hleft⟩ := List.mem_map.mp (Text.mem_of_mem_middle_trimmed hline)
  cases hreadWhole : readLine whole with
  | none =>
      rw [← hleft, left_of_none hreadWhole, hreadWhole] at hread
      contradiction
  | some read =>
      refine ⟨whole, hwhole, read.1, ?_⟩
      rw [hreadWhole, ← hleft, left, hreadWhole]
      rfl

/-- A reference behind another one, one behind white space, and a second carriage return are left. -/
theorem take_again_differs :
    take (ofString "Ref AB-1. See CD-2") = (ofString "See CD-2", [ofString "AB-1"]) ∧
      take (ofString "See CD-2") = ([], [ofString "CD-2"]) ∧
      take (ofString " Ref AB-1") = (ofString "Ref AB-1", []) ∧ take (ofString "Ref AB-1") = ([], [ofString "AB-1"]) ∧
      take (ofString "a\r\r\nb") = (ofString "a\r\nb", []) ∧ take (ofString "a\r\nb") = (ofString "a\nb", []) := by
  decide +kernel

end Changelog.Reference
