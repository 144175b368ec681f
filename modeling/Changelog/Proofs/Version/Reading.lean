import Changelog.Proofs.Text.Lines
import Changelog.Proofs.Text.Parts
import Changelog.Proofs.Text.Splitting
import Changelog.Version.Basic

/-! # Versions are read from their written form

A version has one written form. That form is read as the version again, and nothing else is.
-/

namespace Changelog

namespace Text

variable {c d : Char} {text before after : Text} {parts : List Text}

theorem cutAt_eq_none_iff : cutAt c text = none ↔ c ∉ text := by
  induction text with
  | nil => simp [cutAt]
  | cons d text ih =>
      rw [cutAt, List.mem_cons, not_or, ← ih]
      split
      next same => simp [same]
      next other => simp [Ne.symm other]

theorem not_mem_of_cutAt (h : cutAt c text = some (before, after)) : c ∉ before := by
  induction text generalizing before with
  | nil => contradiction
  | cons d text ih =>
      rw [cutAt] at h
      split at h
      · cases h
        exact List.not_mem_nil
      next other =>
        obtain ⟨⟨first, rest⟩, hcut, heq⟩ := Option.map_eq_some_iff.mp h
        cases heq
        simp [Ne.symm other, ih hcut]

/-! ## Digits -/

theorem isPlainDigit_iff (c : Char) : isPlainDigit c ↔ c.isDigit := by
  simp only [isPlainDigit, Char.isDigit, Bool.and_eq_true, decide_eq_true_eq]
  rfl

theorem forall_isPlainDigit_ofNat (n : Nat) : ∀ c ∈ ofNat n, isPlainDigit c := fun c hc =>
  (isPlainDigit_iff c).mpr (Nat.isDigit_of_mem_toDigits (by decide) (by decide) hc)

theorem ofNat_ne_nil (n : Nat) : ofNat n ≠ [] := Nat.toDigits_ne_nil

theorem isPlainDigit_bounds (h : isPlainDigit c) : 48 ≤ c.toNat ∧ c.toNat ≤ 57 := by
  simpa [isPlainDigit] using h

theorem digitChar_of_isPlainDigit (h : isPlainDigit c) : Nat.digitChar (c.toNat - '0'.toNat) = c := by
  obtain ⟨first, last⟩ := isPlainDigit_bounds h
  have digits : ∀ k < 10, Nat.digitChar k = Char.ofNat (48 + k) := by decide
  have zero : '0'.toNat = 48 := rfl
  rw [zero, digits _ (by omega), Nat.add_sub_cancel' first, Char.ofNat_toNat]

theorem head?_ofNat {n : Nat} (h : 0 < n) : (ofNat n).head? ≠ some '0' := by
  induction n using Nat.strongRecOn with
  | ind n ih =>
      rw [ofNat, Nat.toDigits_eq_if (by decide)]
      split
      next small =>
        have digits : ∀ k < 10, 0 < k → Nat.digitChar k ≠ '0' := by decide
        simpa using digits n small h
      next large =>
        have later := ih (n / 10) (by omega) (by omega)
        rwa [List.head?_append_of_ne_nil _ Nat.toDigits_ne_nil]

theorem ofNat_ofDigitChars (digits : ∀ c ∈ text, isPlainDigit c) (h : text.head? ≠ some '0') (hne : text ≠ []) :
    0 < Nat.ofDigitChars 10 text 0 ∧ ofNat (Nat.ofDigitChars 10 text 0) = text := by
  induction text using List.reverseRecOn with
  | nil => contradiction
  | append_singleton front c ih =>
      obtain ⟨hfront, hlast⟩ := List.forall_mem_append.mp digits
      have digit : isPlainDigit c := hlast c List.mem_cons_self
      obtain ⟨first, last⟩ := isPlainDigit_bounds digit
      have zero : '0'.toNat = 48 := rfl
      have small : c.toNat - '0'.toNat < 10 := by omega
      have written : Nat.toDigits 10 (c.toNat - '0'.toNat) = [c] := by
        rw [Nat.toDigits_of_lt_base small, digitChar_of_isPlainDigit digit]
      rw [Nat.ofDigitChars_append, Nat.ofDigitChars_cons, Nat.ofDigitChars_nil]
      by_cases empty : front = []
      · subst empty
        have positive : c.toNat ≠ 48 := by
          intro same
          have : c = '0' := by rw [← Char.ofNat_toNat c, same]
          simp [this] at h
        refine ⟨?_, by simpa [ofNat] using written⟩
        rw [Nat.ofDigitChars_nil]
        omega
      · obtain ⟨positive, same⟩ := ih hfront (by rwa [List.head?_append_of_ne_nil _ empty] at h) empty
        refine ⟨by omega, ?_⟩
        rw [ofNat] at same
        rw [ofNat, ← Nat.toDigits_append_toDigits (by decide) positive small, written, same]

end Text

namespace Version

open Text

variable {v : Version} {text before : Text} {mark : Char} {accept : Text → Bool} {identifiers : List Text}

/-! ## Numbers -/

theorem numeral?_ofNat (n : Nat) : numeral? (ofNat n) = some n := by
  have digits : (ofNat n).all isPlainDigit := List.all_eq_true.mpr (forall_isPlainDigit_ofNat n)
  have leading : (ofNat n = ['0'] || ((ofNat n).head?.map (· != '0')).getD false) = true := by
    cases n with
    | zero => rfl
    | succ n =>
        obtain ⟨c, rest, hwritten⟩ := List.exists_cons_of_ne_nil (ofNat_ne_nil (n + 1))
        have := head?_ofNat (Nat.succ_pos n)
        rw [hwritten] at this ⊢
        simpa using Or.inr this
  rw [numeral?, digits, leading, Bool.and_self, if_pos rfl, ofNat, Nat.ofDigitChars_ten_toDigits]

theorem numeral?_eq_some_iff {n : Nat} : numeral? text = some n ↔ text = ofNat n := by
  refine ⟨fun h => ?_, fun h => h ▸ numeral?_ofNat n⟩
  unfold numeral? at h
  split at h
  next reads =>
    obtain rfl := Option.some.inj h
    simp only [Bool.and_eq_true, List.all_eq_true, Bool.or_eq_true, decide_eq_true_eq] at reads
    obtain ⟨digits, rfl | leading⟩ := reads
    · rfl
    · cases text with
      | nil => contradiction
      | cons c rest =>
          refine (ofNat_ofDigitChars digits ?_ (List.cons_ne_nil c rest)).2.symm
          simpa using leading
  next => contradiction

/-! ## Identifiers -/

theorem not_mem_of_isBuildIdentifier {c : Char} (h : isBuildIdentifier text) (other : isIdentifierChar c = false) :
    c ∉ text := by
  simp only [isBuildIdentifier, Bool.and_eq_true, List.all_eq_true] at h
  intro hmem
  rw [h.2 c hmem] at other
  contradiction

theorem isBuildIdentifier_of_isPrereleaseIdentifier (h : isPrereleaseIdentifier text) : isBuildIdentifier text :=
  (Bool.and_eq_true_iff.mp h).1

theorem isBuildIdentifier_ofNat (n : Nat) : isBuildIdentifier (ofNat n) := by
  have filled : (ofNat n).isEmpty = false := by simpa using ofNat_ne_nil n
  simp only [isBuildIdentifier, filled, Bool.not_false, Bool.true_and, List.all_eq_true]
  exact fun c hc => by simp [isIdentifierChar, forall_isPlainDigit_ofNat n c hc]

theorem isNumeric_ofNat (n : Nat) : isNumeric (ofNat n) := List.all_eq_true.mpr (forall_isPlainDigit_ofNat n)

theorem isPrereleaseIdentifier_ofNat (n : Nat) : isPrereleaseIdentifier (ofNat n) := by
  simp [isPrereleaseIdentifier, isBuildIdentifier_ofNat, numeral?_ofNat]

/-! ## Parts -/

theorem core?_eq_some_iff {major minor patch : Nat} : core? text = some (major, minor, patch) ↔
    text = join ['.'] [ofNat major, ofNat minor, ofNat patch] := by
  have undotted : ∀ part ∈ [ofNat major, ofNat minor, ofNat patch], '.' ∉ part := by
    simp only [List.forall_mem_cons, List.not_mem_nil, false_implies, implies_true, and_true]
    have each : ∀ n, '.' ∉ ofNat n := fun n => not_mem_of_isBuildIdentifier (isBuildIdentifier_ofNat n) (by decide)
    exact ⟨each major, each minor, each patch⟩
  constructor
  · intro h
    unfold core? at h
    split at h
    next first second third hparts =>
      simp only [Option.bind_eq_bind, Option.bind_eq_some_iff, Option.pure_def, Option.some.injEq, Prod.mk.injEq,
        numeral?_eq_some_iff] at h
      obtain ⟨_, rfl, _, rfl, _, rfl, rfl, rfl, rfl⟩ := h
      rw [← hparts, join_splitOn]
    next => contradiction
  · rintro rfl
    rw [core?, splitOn_join undotted (List.cons_ne_nil _ _)]
    simp [numeral?_ofNat]

theorem splitMark_eq_some_iff (undotted : ∀ part, accept part → '.' ∉ part) :
    splitMark mark accept text = some (before, identifiers) ↔
      text = before ++ marked mark identifiers ∧ mark ∉ before ∧ ∀ part ∈ identifiers, accept part := by
  unfold splitMark
  constructor
  · intro h
    split at h
    next hcut =>
      cases h
      exact ⟨by simp [marked], cutAt_eq_none_iff.mp hcut, List.forall_mem_nil _⟩
    next first after hcut =>
      dsimp only at h
      split at h
      next accepted =>
        cases h
        refine ⟨?_, not_mem_of_cutAt hcut, List.all_eq_true.mp accepted⟩
        have written : marked mark (after.splitOn '.') = mark :: join ['.'] (after.splitOn '.') := by
          rw [marked]
          exact List.splitOn_ne_nil '.' after
        rw [written, join_splitOn]
        exact cutAt_eq_some hcut
      next => contradiction
  · rintro ⟨rfl, apart, accepted⟩
    cases identifiers with
    | nil => simp [marked, cutAt_eq_none_iff.mpr apart]
    | cons part rest =>
        have parts : (join ['.'] (part :: rest)).splitOn '.' = part :: rest :=
          splitOn_join (fun other hother => undotted other (accepted other hother)) (List.cons_ne_nil part rest)
        have whole : (part :: rest).all accept = true := List.all_eq_true.mpr accepted
        simp only [marked, cutAt_append_cons apart, parts, whole, if_true]

/-! ## Versions -/

/-- Can all identifiers be read? -/
structure IsWellFormed (v : Version) : Prop where
  prerelease : ∀ part ∈ v.prerelease, isPrereleaseIdentifier part
  build : ∀ part ∈ v.build, isBuildIdentifier part

def core (v : Version) : Text := join ['.'] [ofNat v.major, ofNat v.minor, ofNat v.patch]

theorem text_eq (v : Version) : v.text = v.core ++ marked '-' v.prerelease ++ marked '+' v.build := by
  simp [Version.text, core, join]

theorem not_mem_core {c : Char} (digit : isPlainDigit c = false) (dot : c ≠ '.') (v : Version) : c ∉ v.core := by
  have each : ∀ n, c ∉ ofNat n := by
    intro n hc
    rw [forall_isPlainDigit_ofNat n c hc] at digit
    contradiction
  simp [core, join, each, dot]

theorem marked_of_ne_nil (h : identifiers ≠ []) : marked mark identifiers = mark :: join ['.'] identifiers := by
  rw [marked]
  exact h

theorem not_mem_marked {c : Char} (other : isIdentifierChar c = false) (dot : c ≠ '.') (apart : c ≠ mark)
    (h : ∀ part ∈ identifiers, isBuildIdentifier part) : c ∉ marked mark identifiers := by
  intro hmem
  cases identifiers with
  | nil => contradiction
  | cons first rest =>
      rw [marked_of_ne_nil (List.cons_ne_nil first rest)] at hmem
      rcases mem_join ((List.mem_cons.mp hmem).resolve_left apart) with hc | ⟨part, hpart, hc⟩
      · exact dot (List.mem_singleton.mp hc)
      · exact not_mem_of_isBuildIdentifier (h part hpart) other hc

/-- A text is read as a version just if it is the written form of it. -/
theorem parse?_eq_some_iff : parse? text = some v ↔ v.IsWellFormed ∧ text = v.text := by
  have prereleases : ∀ part, isPrereleaseIdentifier part → '.' ∉ part := fun part hpart =>
    not_mem_of_isBuildIdentifier (isBuildIdentifier_of_isPrereleaseIdentifier hpart) (by decide)
  have builds : ∀ part, isBuildIdentifier part → '.' ∉ part := fun part hpart => not_mem_of_isBuildIdentifier hpart (by decide)
  simp only [parse?, Option.bind_eq_bind, Option.bind_eq_some_iff, Prod.exists, splitMark_eq_some_iff prereleases,
    splitMark_eq_some_iff builds, core?_eq_some_iff, Option.pure_def, Option.some.injEq]
  constructor
  · rintro ⟨main, build, ⟨rfl, -, hbuild⟩, core, prerelease, ⟨rfl, -, hprerelease⟩, major, minor, patch, rfl, rfl⟩
    exact ⟨⟨hprerelease, hbuild⟩, by rw [text_eq, Version.core]⟩
  · rintro ⟨⟨hprerelease, hbuild⟩, rfl⟩
    refine ⟨v.core ++ marked '-' v.prerelease, v.build, ⟨text_eq v, ?_, hbuild⟩, v.core, v.prerelease,
      ⟨rfl, not_mem_core (by decide) (by decide) v, hprerelease⟩, v.major, v.minor, v.patch, rfl, rfl⟩
    rw [List.mem_append, not_or]
    exact ⟨not_mem_core (by decide) (by decide) v, not_mem_marked (by decide) (by decide) (by decide) fun part hpart =>
      isBuildIdentifier_of_isPrereleaseIdentifier (hprerelease part hpart)⟩

theorem read_eq_ok_iff : read text = .ok v ↔ parse? text = some v ∧ v.hasLongNumber = false := by
  constructor
  · intro h
    cases hparse : parse? text with
    | none => simp [read, hparse] at h
    | some other =>
        cases hlong : other.hasLongNumber with
        | true => simp [read, hparse, hlong] at h
        | false =>
            obtain rfl : other = v := by simpa [read, hparse, hlong] using h
            exact ⟨rfl, hlong⟩
  · rintro ⟨hparse, short⟩
    simp [read, hparse, short]

theorem isValid_iff : isValid text ↔ ∃ v, read text = .ok v := by
  simp only [read_eq_ok_iff]
  cases hparse : parse? text with
  | none => simp [isValid, hparse]
  | some v => simp [isValid, hparse]

theorem exists_text_of_isValid (h : isValid text) :
    ∃ v : Version, v.IsWellFormed ∧ v.hasLongNumber = false ∧ text = v.text := by
  obtain ⟨v, hread⟩ := isValid_iff.mp h
  obtain ⟨hparse, short⟩ := read_eq_ok_iff.mp hread
  obtain ⟨wellFormed, written⟩ := parse?_eq_some_iff.mp hparse
  exact ⟨v, wellFormed, short, written⟩

end Version

end Changelog
