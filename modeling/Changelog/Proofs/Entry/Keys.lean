import Changelog.Entry.Reference
import Changelog.Proofs.Text.Search
import Changelog.Proofs.Text.Splitting
import Mathlib.Data.List.TakeWhile

/-! # Issue keys in a line

A line that refers to issues names them in a run: keys with nothing, a comma or the word `and` in any case between them. The run is
split again only at the comma and at the word in lower case, so what is kept is single keys just if all neighbours are separated
in one of these two ways.
-/

namespace Changelog.Reference

open Text (ofString)

variable {text key keys rest separator part lead : Text} {between : Text → Prop} {c : Char}

/-! ## Keys and runs of keys -/

/-- Is the text two to four letters, a dash and digits? -/
def IsKey (text : Text) : Prop := ∃ letters digits, text = letters ++ '-' :: digits ∧
  (2 ≤ letters.length ∧ letters.length ≤ 4 ∧ ∀ c ∈ letters, isLetterForm c) ∧ digits ≠ [] ∧ ∀ c ∈ digits, isDecimalDigit c

/-- What is read between keys: nothing, a comma with a blank, or the word `and` between blanks, in any case. -/
def IsSeparator (text : Text) : Prop :=
  text = [] ∨ text = [',', ' '] ∨ Text.dropLeadFolded? (ofString " and ") text = some []

/-- What keys are told apart by. -/
def IsExact (text : Text) : Prop := text = [',', ' '] ∨ text = ofString " and "

/-- What keys are read across and not told apart by. -/
def IsLoose (text : Text) : Prop := IsSeparator text ∧ ¬IsExact text

instance : DecidablePred IsExact := fun _ => inferInstanceAs (Decidable (_ ∨ _))

/-- One or more keys with separators of some kind between them, where the last one may have nothing behind it. -/
inductive IsRun (between : Text → Prop) : Text → Prop where
  | last {key separator : Text} : IsKey key → separator = [] ∨ between separator → IsRun between (key ++ separator)
  | more {key separator keys : Text} : IsKey key → between separator → IsRun between keys →
      IsRun between (key ++ (separator ++ keys))

theorem IsRun.exists_key (h : IsRun between keys) : ∃ key rest, IsKey key ∧ keys = key ++ rest := by
  cases h with
  | last hkey _ => exact ⟨_, _, hkey, rfl⟩
  | more hkey _ _ => exact ⟨_, _, hkey, rfl⟩

theorem IsKey.isRun (h : IsKey key) : IsRun between key := by
  have alone : IsRun between (key ++ []) := .last h (Or.inl rfl)
  rwa [List.append_nil] at alone

theorem IsKey.not_mem (h : IsKey key) (letter : isLetterForm c = false) (digit : isDecimalDigit c = false) (dash : c ≠ '-') :
    c ∉ key := by
  obtain ⟨letters, digits, rfl, ⟨-, -, hletters⟩, -, hdigits⟩ := h
  rw [List.mem_append, List.mem_cons]
  rintro (hc | rfl | hc)
  · rw [hletters c hc] at letter
    contradiction
  · exact dash rfl
  · rw [hdigits c hc] at digit
    contradiction

theorem IsKey.space_not_mem (h : IsKey key) : ' ' ∉ key := h.not_mem (by decide) (by decide) (by decide)

theorem IsKey.comma_not_mem (h : IsKey key) : ',' ∉ key := h.not_mem (by decide) (by decide) (by decide)

theorem IsKey.ne_nil (h : IsKey key) : key ≠ [] := by
  obtain ⟨letters, digits, rfl, -⟩ := h
  simp

theorem IsKey.count_dash (h : IsKey key) : key.count '-' = 1 := by
  obtain ⟨letters, digits, rfl, ⟨-, -, hletters⟩, -, hdigits⟩ := h
  have front : letters.count '-' = 0 := List.count_eq_zero_of_not_mem fun hc => absurd (hletters '-' hc) (by decide)
  have back : digits.count '-' = 0 := List.count_eq_zero_of_not_mem fun hc => absurd (hdigits '-' hc) (by decide)
  rw [List.count_append, List.count_cons_self, front, back]

theorem IsKey.not_isKey_append (h : IsKey key) (hkeys : IsRun between keys) (separator : Text) :
    ¬IsKey (key ++ (separator ++ keys)) := by
  obtain ⟨next, rest, hnext, rfl⟩ := hkeys.exists_key
  intro whole
  have dashes := whole.count_dash
  simp only [List.count_append, h.count_dash, hnext.count_dash] at dashes
  omega

/-! ## What is read -/

theorem of_readKey (h : readKey text = some (key, rest)) : IsKey key ∧ text = key ++ rest := by
  unfold readKey at h
  split at h
  next after hafter =>
    dsimp only at h
    split at h
    next counted =>
      simp only [Bool.and_eq_true, decide_eq_true_eq, Bool.not_eq_true', List.isEmpty_eq_false_iff] at counted
      obtain ⟨⟨two, four⟩, filled⟩ := counted
      cases h
      refine ⟨⟨_, _, rfl, ⟨two, four, fun c hc => List.mem_takeWhile_imp hc⟩, filled, fun c hc => List.mem_takeWhile_imp hc⟩, ?_⟩
      rw [List.append_assoc, List.cons_append, List.takeWhile_append_dropWhile, ← hafter, List.takeWhile_append_dropWhile]
    next => contradiction
  next => contradiction

theorem of_dropLeadFolded? (h : Text.dropLeadFolded? (ofString " and ") separator = some []) :
    ∃ letters, separator = ' ' :: (letters ++ [' ']) ∧ letters.length = 3 ∧ ∀ c ∈ letters, isLetterForm c := by
  have blank {c : Char} (h : Text.FoldsTo c ' ') : c = ' ' := h.resolve_left (Text.foldLetter?_ne (by decide) c)
  obtain ⟨front, whole, forms⟩ := Text.dropLeadFolded?_eq_some_iff.mp h
  rw [List.append_nil] at whole
  subst whole
  have spelled : ofString " and " = [' ', 'a', 'n', 'd', ' '] := by decide
  simp only [spelled, List.forall₂_cons_right_iff, List.forall₂_nil_right_iff] at forms
  obtain ⟨first, _, hfirst, ⟨a, _, ha, ⟨n, _, hn, ⟨d, _, hd, ⟨last, _, hlast, rfl, rfl⟩, rfl⟩, rfl⟩, rfl⟩, rfl⟩ := forms
  obtain rfl := blank hfirst
  obtain rfl := blank hlast
  refine ⟨[a, n, d], rfl, rfl, ?_⟩
  simp only [List.forall_mem_cons]
  exact ⟨ha.isLetterForm (by decide), hn.isLetterForm (by decide), hd.isLetterForm (by decide), nofun⟩

theorem of_readSeparator (h : readSeparator text = (separator, rest)) : IsSeparator separator ∧ text = separator ++ rest := by
  unfold readSeparator at h
  split at h
  next after hafter =>
    cases h
    obtain ⟨front, rfl, forms⟩ := Text.dropLeadFolded?_eq_some_iff.mp hafter
    have width : front.length = 5 := forms.length_eq
    rw [← width, List.take_left]
    exact ⟨Or.inr (Or.inr (Text.dropLeadFolded?_eq_some_iff.mpr ⟨front, (List.append_nil front).symm, forms⟩)), rfl⟩
  next =>
    split at h
    · cases h
      exact ⟨Or.inr (Or.inl rfl), rfl⟩
    · cases h
      exact ⟨Or.inl rfl, rfl⟩

/-- What is read as keys is a run of them at the start of the text. -/
theorem of_readKeys (h : readKeys text = some (keys, rest)) : IsRun IsSeparator keys ∧ text = keys ++ rest := by
  fun_induction readKeys text generalizing keys rest with
  | case1 => contradiction
  | case2 text key after hkey separator next hseparator hnext ih =>
      cases h
      obtain ⟨isKey, rfl⟩ := of_readKey hkey
      obtain ⟨isSeparator, rfl⟩ := of_readSeparator hseparator
      exact ⟨.last isKey (Or.inr isSeparator), (List.append_assoc ..).symm⟩
  | case3 text key after hkey separator next hseparator keys' rest' hnext ih =>
      cases h
      obtain ⟨isKey, rfl⟩ := of_readKey hkey
      obtain ⟨isSeparator, rfl⟩ := of_readSeparator hseparator
      rw [hseparator] at hnext ih
      obtain ⟨run, rfl⟩ := ih hnext
      rw [List.append_assoc]
      exact ⟨.more isKey isSeparator run, by simp⟩

/-! ## Telling keys apart -/

/-- The parts of a run, empty ones included. -/
def parts (text : Text) : List Text := (Text.splitAll (ofString " and ") text).flatMap (Text.splitAll [',', ' '])

theorem splitKeys_eq (keys : Text) : splitKeys keys = (parts keys).filter (!·.isEmpty) := rfl

theorem exists_parts (text : Text) : ∃ first others, parts text = first :: others := by
  refine List.exists_cons_of_ne_nil fun empty => ?_
  obtain ⟨first, others, hsplit⟩ := List.exists_cons_of_ne_nil (Text.splitAll_ne_nil (ofString " and ") text)
  rw [parts, hsplit, List.flatMap_cons, List.append_eq_nil_iff] at empty
  exact Text.splitAll_ne_nil _ _ empty.1

theorem parts_append (h : ',' ∉ lead) (whole : Text.splitAll (ofString " and ") (lead ++ text) =
    (Text.splitAll (ofString " and ") text).modifyHead (lead ++ ·)) : parts (lead ++ text) = (parts text).modifyHead (lead ++ ·) := by
  obtain ⟨first, others, hsplit⟩ := List.exists_cons_of_ne_nil (Text.splitAll_ne_nil (ofString " and ") text)
  obtain ⟨head, tail, hhead⟩ := List.exists_cons_of_ne_nil (Text.splitAll_ne_nil [',', ' '] first)
  rw [parts, parts, whole, hsplit, List.modifyHead_cons, List.flatMap_cons, List.flatMap_cons,
    Text.splitAll_append_of_not_mem h, hhead]
  rfl

theorem spelled_and : ofString " and " = ' ' :: ofString "and " := by decide

theorem parts_key_append (h : IsKey key) (text : Text) : parts (key ++ text) = (parts text).modifyHead (key ++ ·) := by
  refine parts_append h.comma_not_mem ?_
  rw [spelled_and]
  exact Text.splitAll_append_of_not_mem h.space_not_mem _ _

/-- Does a text not go on the word `and` behind a blank? -/
def IsApart (text : Text) : Prop := ¬ofString " and " <+: ' ' :: text

instance : DecidablePred IsApart := fun _ => inferInstanceAs (Decidable (¬_))

theorem isApart_nil : IsApart [] := by decide

theorem IsKey.isApart (h : IsKey key) (rest : Text) : IsApart (key ++ rest) := by
  obtain ⟨letters, digits, rfl, ⟨-, -, hletters⟩, -⟩ := h
  rw [IsApart, spelled_and, List.cons_prefix_cons]
  rintro ⟨-, tail, same⟩
  -- behind its first letters the one has a blank, the other one a dash
  have left : (ofString "and " ++ tail).dropWhile isLetterForm = ' ' :: tail := rfl
  have right : (letters ++ '-' :: digits ++ rest).dropWhile isLetterForm = '-' :: (digits ++ rest) := by
    rw [List.append_assoc, List.dropWhile_append_of_pos hletters]
    rfl
  rw [same, right] at left
  exact absurd (List.cons.inj left).1 (by decide)

theorem IsRun.isApart (h : IsRun between keys) : IsApart keys := by
  obtain ⟨key, rest, hkey, rfl⟩ := h.exists_key
  exact hkey.isApart rest

theorem parts_and_append (text : Text) : parts (ofString " and " ++ text) = [] :: parts text := by
  rw [parts, Text.splitAll_separator_append (by decide)]
  rfl

theorem parts_comma_append (h : IsApart text) : parts ([',', ' '] ++ text) = [] :: parts text := by
  have whole : Text.splitAll (ofString " and ") ([',', ' '] ++ text) =
      (Text.splitAll (ofString " and ") text).modifyHead ([',', ' '] ++ ·) := by
    have comma : ¬ofString " and " <+: ',' :: ' ' :: text := fun starts =>
      absurd (List.cons_prefix_cons.mp (spelled_and ▸ starts)).1 (by decide)
    rw [List.cons_append, List.singleton_append, Text.splitAll_cons comma, Text.splitAll_cons h, List.modifyHead_modifyHead]
    rfl
  obtain ⟨first, others, hsplit⟩ := List.exists_cons_of_ne_nil (Text.splitAll_ne_nil (ofString " and ") text)
  rw [parts, parts, whole, hsplit, List.modifyHead_cons, List.flatMap_cons, List.flatMap_cons,
    Text.splitAll_separator_append (by decide)]
  rfl

theorem parts_exact_append (h : IsExact separator) (apart : IsApart text) : parts (separator ++ text) = [] :: parts text := by
  rcases h with rfl | rfl
  · exact parts_comma_append apart
  · exact parts_and_append text

theorem IsLoose.cases (h : IsLoose separator) : separator = [] ∨
    ∃ letters, separator = ' ' :: (letters ++ [' ']) ∧ letters.length = 3 ∧ ∀ c ∈ letters, isLetterForm c := by
  obtain ⟨rfl | rfl | hand, loose⟩ := h
  · exact Or.inl rfl
  · exact absurd (Or.inl rfl) loose
  · exact Or.inr (of_dropLeadFolded? hand)

theorem parts_loose_append (h : IsLoose separator) (apart : IsApart text) :
    parts (separator ++ text) = (parts text).modifyHead (separator ++ ·) := by
  rcases h.cases with rfl | ⟨letters, rfl, width, hletters⟩
  · obtain ⟨first, others, hparts⟩ := exists_parts text
    rw [List.nil_append, hparts]
    rfl
  · have blank : ' ' ∉ letters := fun hc => absurd (hletters ' ' hc) (by decide)
    have comma : ',' ∉ letters := fun hc => absurd (hletters ',' hc) (by decide)
    have inexact : ¬ofString " and " <+: ' ' :: (letters ++ ' ' :: text) := by
      intro starts
      have length : (ofString " and ").length = 5 := by decide
      have reached : ' ' :: (letters ++ [' ']) <+: ' ' :: (letters ++ ' ' :: text) := ⟨text, by simp⟩
      have same : ofString " and " = ' ' :: (letters ++ [' ']) :=
        (List.prefix_of_prefix_length_le starts reached (by simp [width, length])).eq_of_length (by simp [width, length])
      exact h.2 (Or.inr same.symm)
    have whole : Text.splitAll (ofString " and ") (' ' :: (letters ++ [' ']) ++ text) =
        (Text.splitAll (ofString " and ") text).modifyHead (' ' :: (letters ++ [' ']) ++ ·) := by
      have inner : Text.splitAll (ofString " and ") (letters ++ ' ' :: text) =
          (Text.splitAll (ofString " and ") (' ' :: text)).modifyHead (letters ++ ·) := by
        rw [spelled_and]
        exact Text.splitAll_append_of_not_mem blank _ _
      rw [List.cons_append, List.append_assoc, List.singleton_append, Text.splitAll_cons inexact, inner, Text.splitAll_cons apart,
        List.modifyHead_modifyHead, List.modifyHead_modifyHead]
      congr 1
      funext part
      simp
    refine parts_append ?_ whole
    simp [comma]

theorem parts_item (hkey : IsKey key) (hseparator : IsSeparator separator) (apart : IsApart text) :
    parts (key ++ (separator ++ text)) =
      if IsExact separator then key :: parts text else (parts text).modifyHead (key ++ separator ++ ·) := by
  rw [parts_key_append hkey]
  split
  next exactly =>
    rw [parts_exact_append exactly apart, List.modifyHead_cons, List.append_nil]
  next inexact =>
    rw [parts_loose_append ⟨hseparator, inexact⟩ apart, List.modifyHead_modifyHead]
    congr 1
    funext part
    simp

theorem parts_last (hkey : IsKey key) (hseparator : IsSeparator separator) :
    parts (key ++ separator) = if IsExact separator then [key, []] else [key ++ separator] := by
  have item := parts_item hkey hseparator isApart_nil
  rw [List.append_nil] at item
  rw [item]
  split
  · rfl
  · show [key ++ separator ++ []] = _
    rw [List.append_nil]

/-- The first part is a run of keys that are not told apart, and so is every other one that is not empty. -/
theorem IsRun.exists_parts (h : IsRun IsSeparator keys) : ∃ first others, parts keys = first :: others ∧ IsRun IsLoose first ∧
    ∀ part ∈ others, part ≠ [] → IsRun IsLoose part := by
  induction h with
  | @last key separator hkey hseparator =>
      have read : IsSeparator separator := hseparator.elim Or.inl id
      rw [parts_last hkey read]
      split
      · exact ⟨key, [[]], rfl, hkey.isRun, by simp⟩
      next inexact => exact ⟨key ++ separator, [], rfl, .last hkey (Or.inr ⟨read, inexact⟩), nofun⟩
  | @more key separator keys hkey hseparator run ih =>
      obtain ⟨first, others, hparts, hfirst, hothers⟩ := ih
      rw [parts_item hkey hseparator run.isApart, hparts]
      split
      · exact ⟨key, _, rfl, hkey.isRun, List.forall_mem_cons.mpr ⟨fun _ => hfirst, hothers⟩⟩
      next inexact =>
        refine ⟨_, others, rfl, ?_, hothers⟩
        show IsRun IsLoose (key ++ separator ++ first)
        rw [List.append_assoc]
        exact .more hkey ⟨hseparator, inexact⟩ hfirst

theorem IsRun.isKey_of_mem_parts (h : IsRun IsExact keys) : ∀ part ∈ parts keys, part ≠ [] → IsKey part := by
  have read {separator : Text} (h : IsExact separator) : IsSeparator separator := by
    rcases h with rfl | rfl
    · exact Or.inr (Or.inl rfl)
    · exact Or.inr (Or.inr (by decide))
  induction h with
  | @last key separator hkey hseparator =>
      rcases hseparator with rfl | exactly
      · rw [parts_last hkey (Or.inl rfl), if_neg (by decide), List.append_nil]
        simpa using fun _ => hkey
      · rw [parts_last hkey (read exactly), if_pos exactly]
        simpa using fun _ => hkey
  | @more key separator keys hkey exactly run ih =>
      rw [parts_item hkey (read exactly) run.isApart, if_pos exactly]
      exact List.forall_mem_cons.mpr ⟨fun _ => hkey, ih⟩

/-- Where keys are not told apart, those that belong together are taken for one, and it is no key. -/
theorem IsRun.isRun_of_parts (h : IsRun IsSeparator keys) (single : ∀ part ∈ parts keys, part ≠ [] → IsKey part) :
    IsRun IsExact keys := by
  induction h with
  | @last key separator hkey hseparator =>
      have read : IsSeparator separator := hseparator.elim Or.inl id
      rw [parts_last hkey read] at single
      split at single
      next exactly => exact .last hkey (Or.inr exactly)
      next inexact =>
        have whole : IsKey (key ++ separator) := single _ List.mem_cons_self (by simp [hkey.ne_nil])
        rcases IsLoose.cases ⟨read, inexact⟩ with rfl | ⟨letters, rfl, -⟩
        · exact .last hkey (Or.inl rfl)
        · exact absurd (by simp) whole.space_not_mem
  | @more key separator keys hkey hseparator run ih =>
      rw [parts_item hkey hseparator run.isApart] at single
      split at single
      next exactly => exact .more hkey exactly (ih (List.forall_mem_cons.mp single).2)
      next inexact =>
        obtain ⟨first, others, hparts, hfirst, -⟩ := run.exists_parts
        rw [hparts, List.modifyHead_cons, List.append_assoc] at single
        exact absurd (single _ List.mem_cons_self (by simp [hkey.ne_nil])) (hkey.not_isKey_append hfirst separator)

/-! ## Lines -/

theorem mem_splitKeys_iff : part ∈ splitKeys keys ↔ part ∈ parts keys ∧ part ≠ [] := by
  simp [splitKeys_eq]

theorem IsRun.splitKeys_ne_nil (h : IsRun IsSeparator keys) : splitKeys keys ≠ [] := by
  obtain ⟨first, others, hparts, hfirst, -⟩ := h.exists_parts
  obtain ⟨key, rest, hkey, rfl⟩ := hfirst.exists_key
  exact List.ne_nil_of_mem (mem_splitKeys_iff.mpr ⟨hparts ▸ List.mem_cons_self, by simp [hkey.ne_nil]⟩)

/-- A line refers to issues by a run of keys, and what it leaves is its end. -/
theorem of_readLine {line : Text} (h : readLine line = some (keys, rest)) : IsRun IsSeparator keys ∧ rest <:+ line := by
  simp only [readLine, Option.bind_eq_bind, Option.bind_eq_some_iff, Prod.exists] at h
  obtain ⟨after, hafter, keys', behind, hkeys, h⟩ := h
  obtain ⟨run, rfl⟩ := of_readKeys hkeys
  have inside : keys' ++ behind <:+ line := by
    have dropped {lead : Text} (h : Text.dropLeadFolded? lead line = some (keys' ++ behind)) : keys' ++ behind <:+ line := by
      obtain ⟨front, rfl, -⟩ := Text.dropLeadFolded?_eq_some_iff.mp h
      exact List.suffix_append front _
    rw [Option.orElse_eq_orElse, Option.orElse_eq_or, Option.or_eq_some_iff] at hafter
    rcases hafter with h | ⟨-, h⟩
    · exact dropped h
    · exact dropped h
  have left : behind <:+ line := (List.suffix_append keys' behind).trans inside
  split at h
  · cases h
    exact ⟨run, List.nil_suffix⟩
  next later =>
    cases h
    exact ⟨run, ((List.dropWhile_suffix isBlankChar).trans (List.suffix_cons '.' later)).trans left⟩
  · contradiction

theorem mem_take_iff {description reference : Text} : reference ∈ (take description).2 ↔
    ∃ line ∈ descriptionLines description, ∃ keys rest, readLine line = some (keys, rest) ∧ reference ∈ splitKeys keys := by
  simp only [take, List.mem_flatten, List.mem_map]
  constructor
  · rintro ⟨_, ⟨_, ⟨line, hline, rfl⟩, rfl⟩, hmem⟩
    cases hread : readLine line with
    | none => simp [hread] at hmem
    | some read => exact ⟨line, hline, read.1, read.2, hread, by simpa [hread] using hmem⟩
  · rintro ⟨line, hline, keys, rest, hread, hmem⟩
    exact ⟨_, ⟨_, ⟨line, hline, rfl⟩, rfl⟩, by simpa [hread] using hmem⟩

/-! ## Descriptions -/

/-- A reference is a run of keys that are not told apart. All references are single keys just if every line that refers to
    issues separates its keys by a comma with a blank or by the word `and` in lower case. -/
theorem references_isKey_iff (description : Text) : (∀ reference ∈ (take description).2, IsRun IsLoose reference) ∧
    ((∀ reference ∈ (take description).2, IsKey reference) ↔ ∀ line ∈ descriptionLines description, ∀ keys rest,
      readLine line = some (keys, rest) → IsRun IsExact keys) := by
  refine ⟨fun reference hreference => ?_, fun h line hline keys rest hread => ?_, fun h reference hreference => ?_⟩
  · obtain ⟨line, -, keys, rest, hread, hmem⟩ := mem_take_iff.mp hreference
    obtain ⟨first, others, hparts, hfirst, hothers⟩ := (of_readLine hread).1.exists_parts
    obtain ⟨hpart, filled⟩ := mem_splitKeys_iff.mp hmem
    rw [hparts] at hpart
    rcases List.mem_cons.mp hpart with rfl | hpart
    · exact hfirst
    · exact hothers reference hpart filled
  · refine (of_readLine hread).1.isRun_of_parts fun part hpart filled => ?_
    exact h part (mem_take_iff.mpr ⟨line, hline, keys, rest, hread, mem_splitKeys_iff.mpr ⟨hpart, filled⟩⟩)
  · obtain ⟨line, hline, keys, rest, hread, hmem⟩ := mem_take_iff.mp hreference
    obtain ⟨hpart, filled⟩ := mem_splitKeys_iff.mp hmem
    exact (h line hline keys rest hread).isKey_of_mem_parts reference hpart filled

/-- Two keys with a capital word between them, or with nothing, are one reference. -/
theorem references_run_on :
    (take (ofString "Ref AB-1 AND CD-2")).2 = [ofString "AB-1 AND CD-2"] ∧ ¬IsKey (ofString "AB-1 AND CD-2") ∧
      (take (ofString "See AB-1CD-2.")).2 = [ofString "AB-1CD-2"] ∧ ¬IsKey (ofString "AB-1CD-2") := by
  refine ⟨by decide +kernel, fun h => h.space_not_mem (by decide), by decide +kernel, fun h => ?_⟩
  exact absurd h.count_dash (by decide)

end Changelog.Reference
