import Changelog.Proofs.Version.Comparison
import Changelog.Proofs.Version.Reading
import Changelog.Version.Bump

/-! # Bumps are newer

The version after another one is a version, and a newer one. For a candidate whose number is glued to its letters this
needs a look at both forms of it: the bump raises the form that is written, and comparison looks at the other one.
-/

namespace Changelog

theorem Text.join_append {parts others : List Text} (c : Char) (hparts : parts ≠ []) (hothers : others ≠ []) :
    join [c] (parts ++ others) = join [c] parts ++ c :: join [c] others := by
  induction parts with
  | nil => contradiction
  | cons part rest ih =>
      obtain ⟨other, others, rfl⟩ := List.exists_cons_of_ne_nil hothers
      cases rest with
      | nil => simp [join]
      | cons next rest =>
          rw [List.cons_append, List.cons_append, join, ← List.cons_append, ih (List.cons_ne_nil next rest)]
          simp [join]

namespace Version

open Text

variable {v w : Version} {text version keyword front last : Text} {stop : Char}

/-! ## The end of a written version -/

theorem exists_marked_append (mark : Char) (init : List Text) : ∃ front stop, (stop = mark ∨ stop = '.') ∧
    ∀ parts, parts ≠ [] → marked mark (init ++ parts) = front ++ stop :: join ['.'] parts := by
  cases init with
  | nil => exact ⟨[], mark, Or.inl rfl, fun parts hparts => marked_of_ne_nil hparts⟩
  | cons first rest =>
      refine ⟨mark :: join ['.'] (first :: rest), '.', Or.inr rfl, fun parts hparts => ?_⟩
      rw [marked_of_ne_nil (List.append_ne_nil_of_left_ne_nil (List.cons_ne_nil first rest) parts),
        join_append '.' (List.cons_ne_nil first rest) hparts]
      rfl

def IsStop (c : Char) : Prop := c = '-' ∨ c = '+' ∨ c = '.'

theorem IsStop.apart (h : IsStop stop) : isPlainDigit stop = false ∧ stop ≠ 'c' := by
  rcases h with rfl | rfl | rfl <;> decide

theorem mem_of_endsWith {stem : Text} (hstop : IsStop stop) (h : (front ++ stop :: stem).endsWith (ofString "-rc")) :
    'c' ∈ stem := by
  obtain ⟨start, hwhole⟩ := List.isSuffixOf_iff_suffix.mp h
  replace hwhole : (start ++ ['-', 'r']) ++ ['c'] = front ++ stop :: stem := by
    rw [List.append_assoc]
    exact hwhole
  cases stem using List.reverseRecOn with
  | nil =>
      obtain ⟨-, final⟩ := List.append_inj' hwhole rfl
      exact absurd (List.cons.inj final).1.symm hstop.apart.2
  | append_singleton stem d =>
      rw [← List.cons_append, ← List.append_assoc] at hwhole
      obtain ⟨-, final⟩ := List.append_inj' hwhole rfl
      rw [← final]
      exact List.mem_append_right stem List.mem_cons_self

theorem candidateNumber?_of_isNumeric (hstop : IsStop stop) (numeric : isNumeric last) :
    candidateNumber? (front ++ stop :: last) = none := by
  have empty : dropTailWhile isPlainDigit last = [] := by
    have := dropTailWhile_append_of_forall (List.all_eq_true.mp numeric) []
    simpa [dropTailWhile] using this
  have final : ((front ++ stop :: []).endsWith (ofString "-rc")) = false := by
    cases h : (front ++ stop :: []).endsWith (ofString "-rc") with
    | false => rfl
    | true => exact absurd (mem_of_endsWith hstop h) List.not_mem_nil
  simp only [candidateNumber?, dropTailWhile_append_cons hstop.apart.1, empty, final, Bool.and_false]
  rfl

theorem splitCandidate_marked {mark : Char} (hmark : mark = '-' ∨ mark = '+') (front : Text) (init : List Text)
    (last : Text) : splitCandidate (front ++ marked mark (init ++ [last])) = front ++ marked mark (init ++ [last]) ∨
      ∃ stem digits, last = stem ++ digits ∧ digits ≠ [] ∧ 'c' ∈ stem ∧
        splitCandidate (front ++ marked mark (init ++ [last])) =
          front ++ marked mark (init ++ [stem, ofNat (Nat.ofDigitChars 10 digits 0)]) := by
  obtain ⟨between, stop, hstop, hmarked⟩ := exists_marked_append mark init
  have stops : IsStop stop := by
    rcases hstop with rfl | rfl
    · exact hmark.imp_right Or.inl
    · exact Or.inr (Or.inr rfl)
  rw [hmarked _ (List.cons_ne_nil last []), ← List.append_assoc, join]
  unfold splitCandidate
  split
  next stem digits hcandidate =>
    simp only [candidateNumber?, dropTailWhile_append_cons stops.apart.1, takeTailWhile_append_cons stops.apart.1] at hcandidate
    split at hcandidate
    next ends =>
      cases hcandidate
      simp only [Bool.and_eq_true, Bool.not_eq_true', List.isEmpty_eq_false_iff] at ends
      refine Or.inr ⟨_, _, (dropTailWhile_append_takeTailWhile isPlainDigit last).symm, ends.1,
        mem_of_endsWith stops ends.2, ?_⟩
      rw [hmarked _ (List.cons_ne_nil _ _)]
      simp [join]
    next => contradiction
  next => exact Or.inl rfl

/-! ## What a version is compared as -/

/-- Is the second version the first one with its prerelease as it is compared? Either it is the same, or the number of a
    candidate is an identifier of its own. -/
structure IsComparedAs (v w : Version) : Prop where
  major : w.major = v.major
  minor : w.minor = v.minor
  patch : w.patch = v.patch
  prerelease : w.prerelease = v.prerelease ∨ ∃ init stem digits number, v.prerelease = init ++ [stem ++ digits] ∧
    w.prerelease = init ++ [stem, number] ∧ digits ≠ [] ∧ isNumeric stem = false

theorem IsComparedAs.refl (v : Version) : IsComparedAs v v := ⟨rfl, rfl, rfl, Or.inl rfl⟩

theorem isNumeric_of_mem {c : Char} (h : c ∈ text) (letter : isPlainDigit c = false) : isNumeric text = false := by
  rw [isNumeric, List.all_eq_false]
  exact ⟨c, h, by simp [letter]⟩

theorem isBuildIdentifier_of_append {stem digits : Text} (h : isBuildIdentifier (stem ++ digits)) (hne : stem ≠ []) :
    isBuildIdentifier stem := by
  simp only [isBuildIdentifier, List.all_append, Bool.and_eq_true] at h
  simp [isBuildIdentifier, h.2.1, hne]

theorem exists_splitCandidate (wellFormed : v.IsWellFormed) :
    ∃ w : Version, w.IsWellFormed ∧ splitCandidate v.text = w.text ∧ IsComparedAs v w := by
  rcases List.eq_nil_or_concat' v.build with build | ⟨init, last, build⟩
  · rcases List.eq_nil_or_concat' v.prerelease with prerelease | ⟨init, last, prerelease⟩
    · -- the text ends with the last of the three numbers
      have whole : v.text = ofNat v.major ++ '.' :: ofNat v.minor ++ '.' :: ofNat v.patch := by
        simp [Version.text, marked, build, prerelease]
      have same : splitCandidate v.text = v.text := by
        rw [splitCandidate, whole, candidateNumber?_of_isNumeric (Or.inr (Or.inr rfl)) (isNumeric_ofNat _)]
      exact ⟨v, wellFormed, same, .refl v⟩
    · have whole : v.text = v.core ++ marked '-' (init ++ [last]) := by
        rw [text_eq, prerelease, build, marked, List.append_nil]
      rcases splitCandidate_marked (Or.inl rfl) v.core init last with same | ⟨stem, digits, rfl, hne, letter, split⟩
      · exact ⟨v, wellFormed, by rw [whole, same], .refl v⟩
      · have numeric : isNumeric stem = false := isNumeric_of_mem letter (by decide)
        have own := wellFormed.prerelease
        rw [prerelease, List.forall_mem_append] at own
        have identifier : isBuildIdentifier stem := isBuildIdentifier_of_append
          (isBuildIdentifier_of_isPrereleaseIdentifier (own.2 _ List.mem_cons_self)) (List.ne_nil_of_mem letter)
        refine ⟨{ v with prerelease := init ++ [stem, ofNat (Nat.ofDigitChars 10 digits 0)] }, ⟨?_, wellFormed.build⟩, ?_,
          rfl, rfl, rfl, Or.inr ⟨init, stem, digits, _, prerelease, rfl, hne, numeric⟩⟩
        · simp only [List.forall_mem_append, List.forall_mem_cons]
          exact ⟨own.1, by simp [isPrereleaseIdentifier, identifier, numeric], isPrereleaseIdentifier_ofNat _, List.forall_mem_nil _⟩
        · rw [whole, split, text_eq, build, marked, List.append_nil]
          rfl
  · -- build metadata plays no part in the order
    have whole : v.text = (v.core ++ marked '-' v.prerelease) ++ marked '+' (init ++ [last]) := by rw [text_eq, build]
    rcases splitCandidate_marked (Or.inr rfl) (v.core ++ marked '-' v.prerelease) init last with
      same | ⟨stem, digits, rfl, hne, letter, split⟩
    · exact ⟨v, wellFormed, by rw [whole, same], .refl v⟩
    · have own := wellFormed.build
      rw [build, List.forall_mem_append] at own
      have identifier : isBuildIdentifier stem :=
        isBuildIdentifier_of_append (own.2 _ List.mem_cons_self) (List.ne_nil_of_mem letter)
      refine ⟨{ v with build := init ++ [stem, ofNat (Nat.ofDigitChars 10 digits 0)] }, ⟨wellFormed.prerelease, ?_⟩, ?_,
        rfl, rfl, rfl, Or.inl rfl⟩
      · simp only [List.forall_mem_append, List.forall_mem_cons]
        exact ⟨own.1, identifier, isBuildIdentifier_ofNat _, List.forall_mem_nil _⟩
      · rw [whole, split, text_eq]
        rfl

theorem exists_normalizeCandidate (wellFormed : v.IsWellFormed) :
    ∃ w, parse? (normalizeCandidate v.text) = some w ∧ IsComparedAs v w := by
  obtain ⟨w, hw, split, compared⟩ := exists_splitCandidate wellFormed
  unfold normalizeCandidate
  dsimp only
  rw [split]
  split
  · exact ⟨w, parse?_eq_some_iff.mpr ⟨hw, rfl⟩, compared⟩
  · exact ⟨v, parse?_eq_some_iff.mpr ⟨wellFormed, rfl⟩, .refl v⟩

/-! ## The last identifier is raised -/

theorem compareLex_append_left {α : Type} (order : α → α → Ordering) [Std.ReflCmp order] (init xs ys : List α) :
    List.compareLex order (init ++ xs) (init ++ ys) = List.compareLex order xs ys := by
  induction init with
  | nil => rfl
  | cons a init ih => simp [List.compareLex_cons_cons, Std.ReflCmp.compare_self, ih]

theorem comparePrerelease_append (init : List Text) {xs ys : List Text} (hxs : xs ≠ []) (hys : ys ≠ []) :
    comparePrerelease (init ++ xs) (init ++ ys) = List.compareLex compareIdentifier xs ys := by
  have filled : ∀ {zs : List Text}, zs ≠ [] → init ++ zs ≠ [] := fun h => List.append_ne_nil_of_right_ne_nil init h
  rw [← compareLex_append_left compareIdentifier init xs ys]
  obtain ⟨x, xs', hx⟩ := List.exists_cons_of_ne_nil (filled hxs)
  obtain ⟨y, ys', hy⟩ := List.exists_cons_of_ne_nil (filled hys)
  rw [hx, hy, comparePrerelease]
  all_goals exact nofun

theorem raiseLast_concat (init : List Text) (last : Text) : raiseLast (init ++ [last]) =
    init ++ if isNumeric last then [ofNat (Nat.ofDigitChars 10 last 0 + 1)] else [last, ['0']] := by
  induction init with
  | nil => rfl
  | cons first rest ih =>
      obtain ⟨next, others, hnext⟩ := List.exists_cons_of_ne_nil (List.append_ne_nil_of_right_ne_nil rest (List.cons_ne_nil last []))
      rw [List.cons_append, hnext, raiseLast, ← hnext, ih, List.cons_append]

/-- The next prerelease comes after what the last one is compared as. -/
theorem comparePrerelease_raiseLast (compared : IsComparedAs v w) (hne : v.prerelease ≠ []) :
    comparePrerelease (raiseLast v.prerelease) w.prerelease = .gt := by
  obtain ⟨init, last, hlast⟩ := (List.eq_nil_or_concat' v.prerelease).resolve_left hne
  rcases compared.prerelease with same | ⟨init', stem, digits, number, hsplit, hw, filled, numeric⟩
  · rw [same, hlast, raiseLast_concat]
    cases numeric : isNumeric last with
    | true =>
        rw [if_pos rfl, comparePrerelease_append init (List.cons_ne_nil _ _) (List.cons_ne_nil _ _)]
        have raised : compareIdentifier (ofNat (Nat.ofDigitChars 10 last 0 + 1)) last = .gt := by
          rw [compareIdentifier, isNumeric_ofNat, numeric]
          dsimp only
          rw [ofNat, Nat.ofDigitChars_ten_toDigits]
          exact Nat.compare_eq_gt.mpr (Nat.lt_succ_self _)
        simp [List.compareLex_cons_cons, raised]
    | false =>
        rw [if_neg Bool.false_ne_true, comparePrerelease_append init (List.cons_ne_nil _ _) (List.cons_ne_nil _ _)]
        exact compareLex_append_left compareIdentifier [last] [['0']] []
  · -- what is raised has the number glued to the letters, and what it is compared with begins with the letters alone
    obtain ⟨rfl, same⟩ := List.append_inj' (hlast.symm.trans hsplit) rfl
    obtain rfl := (List.cons.inj same).1
    have glued : isNumeric (stem ++ digits) = false := by
      simp only [isNumeric, List.all_append] at numeric ⊢
      rw [numeric, Bool.false_and]
    have longer : compareIdentifier (stem ++ digits) stem = .gt := by
      obtain ⟨d, rest, rfl⟩ := List.exists_cons_of_ne_nil filled
      rw [compareIdentifier, glued, numeric]
      have := compareLex_append_left (compare : Char → Char → Ordering) stem (d :: rest) []
      rw [List.append_nil] at this
      exact this
    rw [hlast, raiseLast_concat, glued, if_neg Bool.false_ne_true, hw,
      comparePrerelease_append init (List.cons_ne_nil _ _) (List.cons_ne_nil _ _)]
    simp [List.compareLex_cons_cons, longer]

/-- The version after another one is newer than what that one is compared as. -/
theorem precedence_bump (compared : IsComparedAs v w) (bump : Bump) : precedence (v.bump bump) w = .gt := by
  have major : compare (v.major + 1) w.major = .gt := by simp [compared.major, Nat.compare_eq_gt]
  have minor : compare (v.minor + 1) w.minor = .gt := by simp [compared.minor, Nat.compare_eq_gt]
  have patch : compare (v.patch + 1) w.patch = .gt := by simp [compared.patch, Nat.compare_eq_gt]
  have majors : compare v.major w.major = .eq := by rw [compared.major]; exact Std.ReflCmp.compare_self
  have minors : compare v.minor w.minor = .eq := by rw [compared.minor]; exact Std.ReflCmp.compare_self
  have patches : compare v.patch w.patch = .eq := by rw [compared.patch]; exact Std.ReflCmp.compare_self
  cases bump with
  | major | premajor => simp [precedence, Version.bump, nextMajor, nextPrerelease, major]
  | minor | preminor => simp [precedence, Version.bump, nextMinor, nextPrerelease, majors, minor]
  | patch | prepatch => simp [precedence, Version.bump, nextPatch, nextPrerelease, majors, minors, patch]
  | prerelease =>
      cases hpre : v.prerelease with
      | nil => simp [precedence, Version.bump, hpre, nextPatch, nextPrerelease, majors, minors, patch]
      | cons first rest =>
          have raised := comparePrerelease_raiseLast compared (hpre ▸ List.cons_ne_nil first rest)
          rw [hpre] at raised
          simp [precedence, Version.bump, hpre, nextPrerelease, majors, minors, patches, raised]

/-! ## The bumped version -/

theorem exists_prerelease_nextPrerelease (v : Version) : ∃ init last, v.nextPrerelease.prerelease = init ++ [last] ∧
    (∃ n, last = ofNat n) ∧ ∀ part ∈ init, part = ofString "rc" ∨ part ∈ v.prerelease := by
  unfold nextPrerelease
  rcases List.eq_nil_or_concat' v.prerelease with empty | ⟨init, last, hlast⟩
  · refine ⟨[ofString "rc"], ['1'], by rw [empty]; rfl, ⟨1, by decide⟩, fun part hpart => Or.inl (List.mem_singleton.mp hpart)⟩
  · have filled : v.prerelease.isEmpty = false := by simp [hlast]
    rw [filled, if_neg Bool.false_ne_true, hlast, raiseLast_concat]
    split
    · exact ⟨init, _, rfl, ⟨_, rfl⟩, fun part hpart => Or.inr (List.mem_append_left _ hpart)⟩
    · exact ⟨init ++ [last], ['0'], by simp, ⟨0, rfl⟩, fun part hpart => Or.inr hpart⟩

theorem prerelease_bump (v : Version) (bump : Bump) : (v.bump bump).prerelease = [] ∨
    ∃ init last, (v.bump bump).prerelease = init ++ [last] ∧ (∃ n, last = ofNat n) ∧
      ∀ part ∈ init, part = ofString "rc" ∨ part ∈ v.prerelease := by
  have fresh : ∀ {numbers : Version}, numbers.prerelease = [] → ∃ init last, numbers.nextPrerelease.prerelease = init ++ [last] ∧
      (∃ n, last = ofNat n) ∧ ∀ part ∈ init, part = ofString "rc" ∨ part ∈ v.prerelease := by
    intro numbers empty
    obtain ⟨init, last, hlast, number, others⟩ := exists_prerelease_nextPrerelease numbers
    exact ⟨init, last, hlast, number, fun part hpart => Or.inl ((others part hpart).resolve_right (by simp [empty]))⟩
  cases bump with
  | major | minor | patch => exact Or.inl rfl
  | premajor | preminor | prepatch => exact Or.inr (fresh rfl)
  | prerelease =>
      refine Or.inr ?_
      unfold Version.bump
      dsimp only
      split
      · exact fresh rfl
      · exact exists_prerelease_nextPrerelease v

theorem build_bump (v : Version) (bump : Bump) : (v.bump bump).build = [] := by
  cases bump with
  | prerelease =>
      unfold Version.bump
      dsimp only
      split <;> rfl
  | major | minor | patch | premajor | preminor | prepatch => rfl

theorem IsWellFormed.bump (wellFormed : v.IsWellFormed) (bump : Bump) : (v.bump bump).IsWellFormed where
  build := by
    rw [build_bump]
    exact nofun
  prerelease := by
    rcases prerelease_bump v bump with empty | ⟨init, last, hlast, ⟨n, rfl⟩, others⟩
    · rw [empty]
      exact nofun
    · rw [hlast, List.forall_mem_append]
      refine ⟨fun part hpart => ?_, by simpa using isPrereleaseIdentifier_ofNat n⟩
      rcases others part hpart with rfl | hpart
      · decide
      · exact wellFormed.prerelease part hpart

/-- A bumped version ends with a number of its own, so it is no candidate that would have to be split. -/
theorem candidateNumber?_bump (v : Version) (bump : Bump) : candidateNumber? (v.bump bump).text = none := by
  rcases prerelease_bump v bump with empty | ⟨init, last, hlast, ⟨n, rfl⟩, -⟩
  · have whole : (v.bump bump).text =
        ofNat (v.bump bump).major ++ '.' :: ofNat (v.bump bump).minor ++ '.' :: ofNat (v.bump bump).patch := by
      simp [Version.text, marked, build_bump, empty]
    rw [whole]
    exact candidateNumber?_of_isNumeric (Or.inr (Or.inr rfl)) (isNumeric_ofNat _)
  · obtain ⟨front, stop, hstop, hmarked⟩ := exists_marked_append '-' init
    have whole : (v.bump bump).text = ((v.bump bump).core ++ front) ++ stop :: ofNat n := by
      rw [text_eq, hlast, hmarked _ (List.cons_ne_nil _ _), build_bump, join, marked, List.append_nil, List.append_assoc]
    rw [whole]
    exact candidateNumber?_of_isNumeric (hstop.imp_right Or.inr) (isNumeric_ofNat n)

/-! ## The text of a bumped version -/

theorem of_bumpText (h : bumpText text keyword = .ok version) : ∃ v bump, parse? text = some v ∧ v.hasLongNumber = false ∧
    Bump.ofKeyword? keyword = some bump ∧ (v.bump bump).hasLongNumber = false ∧ version = (v.bump bump).text := by
  cases hread : read text with
  | error fault => simp [bumpText, bind, Except.bind, hread] at h
  | ok v =>
      obtain ⟨hparse, short⟩ := read_eq_ok_iff.mp hread
      cases hkeyword : Bump.ofKeyword? keyword with
      | none => simp [bumpText, bind, Except.bind, hread, hkeyword] at h
      | some bump =>
          cases hlong : (v.bump bump).hasLongNumber with
          | true => simp [bumpText, bind, Except.bind, hread, hkeyword, hlong] at h
          | false =>
              cases hlast : (v.bump bump).hasLongLast with
              | true => simp [bumpText, bind, Except.bind, hread, hkeyword, hlong, hlast] at h
              | false =>
                  have hversion : (v.bump bump).text = version := by
                    simpa [bumpText, bind, Except.bind, hread, hkeyword, hlong, hlast] using h
                  exact ⟨v, bump, hparse, short, rfl, hlong, hversion.symm⟩

theorem newestFirst_of_bumpText (h : bumpText text keyword = .ok version) :
    isValid text ∧ isValid version ∧ candidateNumber? version = none ∧ newestFirst version text = .lt := by
  obtain ⟨v, bump, hparse, short, -, shortBump, rfl⟩ := of_bumpText h
  obtain ⟨wellFormed, rfl⟩ := parse?_eq_some_iff.mp hparse
  have reads : parse? (v.bump bump).text = some (v.bump bump) := parse?_eq_some_iff.mpr ⟨wellFormed.bump bump, rfl⟩
  have valid : isValid v.text := by simp [isValid, hparse, short]
  have validBump : isValid (v.bump bump).text := by simp [isValid, reads, shortBump]
  have unsplit : candidateNumber? (v.bump bump).text = none := candidateNumber?_bump v bump
  have normal : normalizeCandidate (v.bump bump).text = (v.bump bump).text := normalizeCandidate_of_none unsplit
  obtain ⟨w, hw, compared⟩ := exists_normalizeCandidate wellFormed
  have newer : compareTexts (v.bump bump).text v.text = .gt := by
    simp only [compareTexts, normal, reads, hw, precedence_bump compared bump]
  refine ⟨valid, validBump, unsplit, ?_⟩
  rw [newestFirst_eq_compareTexts validBump valid, compareTexts_swap, newer]
  rfl

end Version

end Changelog
