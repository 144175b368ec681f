import Changelog.Outline.Basic
import Changelog.Proofs.Version.Comparison
import Mathlib.Data.List.Chain

/-! # Neighbours in order

Whether a list is in order is found out from its neighbours alone. This settles the order of any two of its items where
the order is transitive. The order of version texts is, even though two texts may not be comparable: what stands
between two versions is a version again, and one that is unlike a candidate with too long a number would not have been
compared with it.
-/

namespace Changelog

section

variable {α : Type} {items : List α}

theorem isSortedBy_eq_true_iff {compare : α → α → Except Fault Ordering} : isSortedBy compare items = .ok true ↔
    items.IsChain fun a b => ∃ order, compare a b = .ok order ∧ order.isLE := by
  induction items with
  | nil => simp [isSortedBy]
  | cons a rest ih =>
      cases rest with
      | nil => simp [isSortedBy]
      | cons b rest => rw [isSortedBy_cons_cons, List.isChain_cons_cons, ih]

theorem pairwise_of_isChain {R : α → α → Prop} (chain : items.IsChain R)
    (trans : ∀ a ∈ items, ∀ b ∈ items, ∀ c ∈ items, R a b → R b c → R a c) : items.Pairwise R := by
  induction items with
  | nil => exact .nil
  | cons a rest ih =>
      have later : rest.Pairwise R := ih chain.tail fun x hx y hy z hz =>
        trans x (List.mem_cons_of_mem a hx) y (List.mem_cons_of_mem a hy) z (List.mem_cons_of_mem a hz)
      refine .cons ?_ later
      cases rest with
      | nil => exact nofun
      | cons b rest =>
          have hab : R a b := (List.isChain_cons_cons.mp chain).1
          intro c hc
          rcases List.mem_cons.mp hc with rfl | hrest
          · exact hab
          · have hbc : R b c := (List.pairwise_cons.mp later).1 c hrest
            exact trans a (by simp) b (by simp) c (List.mem_cons_of_mem a hc) hab hbc

end

namespace Version

/-- Is it known of two texts that the first does not come after the second? -/
def Precedes (a b : Text) : Prop := ∃ order, compareNewest a b = .ok order ∧ order.isLE

variable {a b c : Text}

theorem precedes_iff : Precedes a b ↔ clash a b = false ∧ (newestFirst a b).isLE := by
  unfold Precedes compareNewest
  cases clash a b <;> simp

theorem isValid_between (ha : isValid a) (hc : isValid c) (hab : (newestFirst a b).isLE) (hbc : (newestFirst b c).isLE) :
    isValid b := by
  rw [newestFirst_isLE_iff] at hab hbc
  rcases hab with rfl | rfl | ⟨notUnreleased, -⟩
  · exact ha
  · exact absurd rfl (ne_unreleased_of_isValid ha)
  · rcases hbc with rfl | rfl | ⟨-, hbc⟩
    · exact hc
    · exact absurd rfl notUnreleased
    · cases hb : isValid b with
      | true => rfl
      | false => simp [hb, hc] at hbc

theorem clash_eq_false_iff_of_isValid (ha : isValid a) (hb : isValid b) :
    clash a b = false ↔ a = b ∨ hasLongCandidate a = false ∧ hasLongCandidate b = false := by
  by_cases hab : a = b
  · simp [clash, hab]
  · simp [clash, hab, ha, hb]

theorem Precedes.trans (hab : Precedes a b) (hbc : Precedes b c) : Precedes a c := by
  rw [precedes_iff] at hab hbc ⊢
  refine ⟨?_, newestFirst_isLE_trans hab.2 hbc.2⟩
  by_cases valid : isValid a ∧ isValid c
  · obtain ⟨ha, hc⟩ := valid
    have hb : isValid b := isValid_between ha hc hab.2 hbc.2
    have first := (clash_eq_false_iff_of_isValid ha hb).mp hab.1
    have second := (clash_eq_false_iff_of_isValid hb hc).mp hbc.1
    rw [clash_eq_false_iff_of_isValid ha hc]
    rcases first with rfl | first
    · exact second
    · rcases second with rfl | second
      · exact Or.inr first
      · exact Or.inr ⟨first.1, second.2⟩
  · cases ha : isValid a <;> cases hc : isValid c <;> simp_all [clash]

theorem pairwise_precedes_of_isSortedBy {texts : List Text} (h : isSortedBy compareNewest texts = .ok true) :
    texts.Pairwise Precedes :=
  pairwise_of_isSortedBy h (fun _ _ order hcompare hle => ⟨order, hcompare, hle⟩) fun _ _ _ _ _ _ => Precedes.trans

end Version

theorem Definitions.pairwise_precedes_of_isSorted {definitions : Definitions} (h : definitions.isSorted = .ok true) :
    (definitions.map (·.1)).Pairwise Version.Precedes := Version.pairwise_precedes_of_isSortedBy h

namespace Release

variable {releases : List Release} {versions : List Text}

theorem isChain_version? (h : isSorted releases = .ok true) :
    (releases.map version?).IsChain fun x y => ∀ v ∈ x, ∀ w ∈ y, Version.Precedes v w := by
  rw [List.isChain_map]
  refine (isSortedBy_eq_true_iff.mp h).imp ?_
  rintro r s ⟨order, hcompare, hle⟩ v hv w hw
  rw [compareNewest, Option.mem_def.mp hv, Option.mem_def.mp hw] at hcompare
  exact ⟨order, hcompare, hle⟩

/-- Releases with the versions of others that are in order are in order too, if those without a version stand in their
    places. -/
theorem isSorted_of_version? {others : List Release} (h : isSorted releases = .ok true)
    (same : others.map version? = releases.map version?)
    (placed : others.Pairwise fun r s => r.version? = none ∨ s.version? = none → r.index < s.index) :
    isSorted others = .ok true := by
  have chain := isChain_version? h
  rw [← same, List.isChain_map] at chain
  refine isSortedBy_eq_true_iff.mpr (List.isChain_iff_getElem.mpr fun i hi => ?_)
  have versions := chain.getElem i hi
  have indexes := placed.isChain.getElem i hi
  unfold compareNewest
  cases hv : others[i].version? with
  | none => exact ⟨.lt, congrArg Except.ok (Nat.compare_eq_lt.mpr (indexes (.inl hv))), rfl⟩
  | some v =>
      cases hw : others[i + 1].version? with
      | none => exact ⟨.lt, congrArg Except.ok (Nat.compare_eq_lt.mpr (indexes (.inr hw))), rfl⟩
      | some w => exact versions v hv w hw

theorem pairwise_precedes_of_isSorted (h : isSorted releases = .ok true)
    (said : releases.map version? = versions.map some) : versions.Pairwise Version.Precedes := by
  have chain := isChain_version? h
  rw [said, List.isChain_map] at chain
  exact pairwise_of_isChain (chain.imp fun v w hvw => hvw v rfl w rfl) fun _ _ _ _ _ _ => Version.Precedes.trans

end Release

end Changelog
