import Changelog.Proofs.Version.Order

/-! # Stable sorting

A stable sort gives back the same items, in order, and keeps items that need not be exchanged in their places.
The order only has to be transitive on the items at hand: releases without a version are compared by their
places, which is transitive for some documents and not for others.
-/

namespace Changelog

/-- `sorted` holds the items in the given order, and no two of them changed places without need. -/
structure IsStableSort {α : Type} (order : α → α → Ordering) (items sorted : List α) : Prop where
  perm : sorted.Perm items
  ordered : sorted.Pairwise fun a b => (order a b).isLE
  stable : ∀ a b, [a, b].Sublist items → (order a b).isLE → [a, b].Sublist sorted

/-- The order of any two of the items does not depend on a third one between them. -/
def IsTransitiveOn {α : Type} (order : α → α → Ordering) (items : List α) : Prop :=
  ∀ a ∈ items, ∀ b ∈ items, ∀ c ∈ items, (order a b).isLE → (order b c).isLE → (order a c).isLE

section

variable {α : Type} {order : α → α → Ordering} {items : List α}

theorem isTransitiveOn_of_transCmp [Std.TransCmp order] : IsTransitiveOn order items :=
  fun _ _ _ _ _ _ hab hbc => Std.TransCmp.isLE_trans hab hbc

theorem bne_gt_eq_isLE (o : Ordering) : (o != .gt) = o.isLE := by
  cases o <;> rfl

theorem isLE_total [Std.OrientedCmp order] (a b : α) : (order a b).isLE ∨ (order b a).isLE := by
  rw [@Std.OrientedCmp.eq_swap _ order _ b a]
  cases order a b <;> simp

theorem stableSort_eq_mergeSort (items : List α) :
    stableSort order items = items.mergeSort fun a b => (order a b).isLE := by
  simp only [stableSort, bne_gt_eq_isLE]

theorem stableSort_perm (items : List α) : (stableSort order items).Perm items := List.mergeSort_perm _ _

@[simp] theorem mem_stableSort {a : α} : a ∈ stableSort order items ↔ a ∈ items := (stableSort_perm items).mem_iff

theorem stableSort_of_pairwise (h : items.Pairwise fun a b => (order a b).isLE) : stableSort order items = items := by
  rw [stableSort_eq_mergeSort]
  exact List.mergeSort_of_pairwise h

theorem stableSort_pair (a b : α) : stableSort order [a, b] = if order a b = .gt then [b, a] else [a, b] := by
  rw [stableSort, List.mergeSort]
  simp [List.MergeSort.Internal.splitInTwo, List.merge]

/-- Sorting the items as members of their own list, where the order is transitive, is sorting the items. -/
theorem map_val_mergeSort_attach :
    (items.attach.mergeSort fun a b => (order a.1 b.1).isLE).map Subtype.val = stableSort order items := by
  rw [stableSort_eq_mergeSort, List.map_mergeSort (s := fun a b => (order a b).isLE) (fun _ _ _ _ => rfl),
    List.attach_map_subtype_val]

theorem isStableSort_stableSort [Std.OrientedCmp order] (trans : IsTransitiveOn order items) :
    IsStableSort order items (stableSort order items) := by
  have trans' : ∀ a b c : { a // a ∈ items }, (order a.1 b.1).isLE → (order b.1 c.1).isLE → (order a.1 c.1).isLE :=
    fun a b c hab hbc => trans a.1 a.2 b.1 b.2 c.1 c.2 hab hbc
  have total : ∀ a b : { a // a ∈ items }, (order a.1 b.1).isLE || (order b.1 a.1).isLE := by
    intro a b
    simpa using isLE_total a.1 b.1
  refine ⟨stableSort_perm items, ?_, ?_⟩
  · rw [← map_val_mergeSort_attach, List.pairwise_map]
    exact List.pairwise_mergeSort trans' total items.attach
  · intro a b hsub hab
    rw [← items.attach_map_subtype_val, List.sublist_map_iff] at hsub
    obtain ⟨pair, hsub, hpair⟩ := hsub
    have ordered : pair.Pairwise fun a b => (order a.1 b.1).isLE := by
      have : (pair.map Subtype.val).Pairwise fun a b => (order a b).isLE := by
        rw [← hpair]
        exact List.pairwise_pair.mpr hab
      exact List.pairwise_map.mp this
    rw [← map_val_mergeSort_attach, hpair]
    exact (List.sublist_mergeSort trans' total ordered hsub).map _

theorem stableSort_map {β : Type} (f : β → α) (items : List β) :
    stableSort order (items.map f) = (stableSort (fun a b => order (f a) (f b)) items).map f := by
  rw [stableSort_eq_mergeSort, stableSort_eq_mergeSort, List.map_mergeSort]
  exact fun _ _ _ _ => rfl

theorem isStableSort_on [Std.OrientedCmp order] {β : Type} (f : β → α) {items : List β}
    (trans : IsTransitiveOn order (items.map f)) :
    IsStableSort (fun a b => order (f a) (f b)) items (stableSort (fun a b => order (f a) (f b)) items) := by
  have oriented : Std.OrientedCmp fun a b : β => order (f a) (f b) := ⟨Std.OrientedCmp.eq_swap⟩
  refine isStableSort_stableSort fun a ha b hb c hc => ?_
  exact trans _ (List.mem_map_of_mem ha) _ (List.mem_map_of_mem hb) _ (List.mem_map_of_mem hc)

theorem isSortedBy_of_pairwise {compare : α → α → Except Fault Ordering}
    (known : ∀ a ∈ items, ∀ b ∈ items, compare a b = .ok (order a b))
    (h : items.Pairwise fun a b => (order a b).isLE) : isSortedBy compare items = .ok true := by
  induction items with
  | nil => rfl
  | cons a rest ih =>
      cases rest with
      | nil => rfl
      | cons b rest =>
          have hab : (order a b).isLE := (List.pairwise_cons.mp h).1 b List.mem_cons_self
          have tail := ih (fun x hx y hy => known x (List.mem_cons_of_mem a hx) y (List.mem_cons_of_mem a hy))
            (List.pairwise_cons.mp h).2
          rw [isSortedBy, known a List.mem_cons_self b (List.mem_cons_of_mem a List.mem_cons_self)]
          cases hc : order a b with
          | lt => exact tail
          | eq => exact tail
          | gt => simp [hc] at hab

theorem isSortedBy_cons_cons {compare : α → α → Except Fault Ordering} {a b : α} :
    isSortedBy compare (a :: b :: items) = .ok true ↔
      (∃ order, compare a b = .ok order ∧ order.isLE) ∧ isSortedBy compare (b :: items) = .ok true := by
  rw [isSortedBy]
  cases compare a b with
  | error fault => simp
  | ok order => cases order <;> simp

/-- Neighbours in order are in order whatever stands between them, if the relation is transitive on the items. -/
theorem pairwise_of_isSortedBy {compare : α → α → Except Fault Ordering} {R : α → α → Prop}
    (h : isSortedBy compare items = .ok true)
    (known : ∀ a b order, compare a b = .ok order → order.isLE → R a b)
    (trans : ∀ a ∈ items, ∀ b ∈ items, ∀ c ∈ items, R a b → R b c → R a c) : items.Pairwise R := by
  induction items with
  | nil => exact .nil
  | cons a rest ih =>
      cases rest with
      | nil => exact List.pairwise_singleton R a
      | cons b rest =>
          obtain ⟨⟨order, hcompare, hle⟩, rest'⟩ := isSortedBy_cons_cons.mp h
          have hab : R a b := known a b order hcompare hle
          have later := ih rest' fun x hx y hy z hz =>
            trans x (List.mem_cons_of_mem a hx) y (List.mem_cons_of_mem a hy) z (List.mem_cons_of_mem a hz)
          refine .cons (fun c hc => ?_) later
          rcases List.mem_cons.mp hc with rfl | hrest
          · exact hab
          · have hbc : R b c := (List.pairwise_cons.mp later).1 c hrest
            exact trans a (by simp) b (by simp) c (List.mem_cons_of_mem a hc) hab hbc

theorem exists_isSortedBy {compare : α → α → Except Fault Ordering}
    (h : ∀ a ∈ items, ∀ b ∈ items, ∃ order, compare a b = .ok order) :
    ∃ isSorted, isSortedBy compare items = .ok isSorted := by
  induction items with
  | nil => exact ⟨true, rfl⟩
  | cons a rest ih =>
      cases rest with
      | nil => exact ⟨true, rfl⟩
      | cons b rest =>
          obtain ⟨order, hab⟩ := h a (by simp) b (by simp)
          obtain ⟨isSorted, later⟩ := ih fun x hx y hy => h x (List.mem_cons_of_mem a hx) y (List.mem_cons_of_mem a hy)
          rw [isSortedBy, hab]
          cases order with
          | gt => exact ⟨false, rfl⟩
          | lt | eq => exact ⟨isSorted, later⟩

end

namespace Version

/-! ## Comparison that can fail -/

theorem clash_eq_false {texts : List Text} (h : anyClash texts = false) {a b : Text} (ha : a ∈ texts)
    (hb : b ∈ texts) : clash a b = false := by
  simp only [anyClash, List.any_eq_false, Bool.and_eq_true, not_and, bne_iff_ne, ne_eq,
    Bool.not_eq_true] at h
  cases hclash : clash a b with
  | false => rfl
  | true =>
      simp only [clash, Bool.and_eq_true, Bool.or_eq_true, bne_iff_ne, ne_eq] at hclash
      obtain ⟨⟨⟨long | long, hne⟩, va⟩, vb⟩ := hclash
      · exact absurd (h a ha ⟨long, va⟩) (by simpa using ⟨b, hb, hne, vb⟩)
      · exact absurd (h b hb ⟨long, vb⟩) (by simpa using ⟨a, ha, Ne.symm hne, va⟩)

theorem compareNewest_eq_ok {a b : Text} (h : clash a b = false) : compareNewest a b = .ok (newestFirst a b) := by
  simp [compareNewest, h]

theorem newestFirst_of_compareNewest {a b : Text} {order : Ordering} (h : compareNewest a b = .ok order) : newestFirst a b = order := by
  unfold compareNewest at h
  split at h
  · contradiction
  · exact Except.ok.inj h

theorem anyClash_eq_false {texts : List Text} (h : ∀ text ∈ texts, hasLongCandidate text = false) :
    anyClash texts = false := by
  simp only [anyClash, List.any_eq_false]
  intro text htext
  simp [h text htext]

theorem anyClash_congr {xs ys : List Text} (h : ∀ text, text ∈ xs ↔ text ∈ ys) : anyClash xs = anyClash ys := by
  rw [Bool.eq_iff_iff]
  simp only [anyClash, List.any_eq_true, Bool.and_eq_true, h]

end Version

namespace Release

theorem newestFirst_swap (a b : Release) : newestFirst a b = (newestFirst b a).swap := by
  unfold newestFirst
  cases a.version? <;> cases b.version?
  · exact Std.OrientedOrd.eq_swap
  · exact Std.OrientedOrd.eq_swap
  · exact Std.OrientedOrd.eq_swap
  · exact Version.newestFirst_swap _ _

instance : Std.OrientedCmp newestFirst where
  eq_swap := newestFirst_swap _ _

theorem isTransitiveOn_newestFirst {releases : List Release} (h : ∀ r ∈ releases, r.version?.isSome) :
    IsTransitiveOn newestFirst releases := by
  intro a ha b hb c hc hab hbc
  obtain ⟨u, hu⟩ := Option.isSome_iff_exists.mp (h a ha)
  obtain ⟨v, hv⟩ := Option.isSome_iff_exists.mp (h b hb)
  obtain ⟨w, hw⟩ := Option.isSome_iff_exists.mp (h c hc)
  simp only [newestFirst, hu, hv, hw] at *
  exact Version.newestFirst_isLE_trans hab hbc

theorem compareNewest_eq_ok {releases : List Release} (h : Version.anyClash (releases.filterMap version?) = false)
    {a b : Release} (ha : a ∈ releases) (hb : b ∈ releases) : compareNewest a b = .ok (newestFirst a b) := by
  unfold compareNewest newestFirst
  cases hv : a.version? with
  | none => rfl
  | some v =>
      cases hw : b.version? with
      | none => rfl
      | some w =>
          exact Version.compareNewest_eq_ok (Version.clash_eq_false h (List.mem_filterMap.mpr ⟨a, ha, hv⟩)
            (List.mem_filterMap.mpr ⟨b, hb, hw⟩))

theorem newestFirst_of_compareNewest {r s : Release} {order : Ordering} (h : compareNewest r s = .ok order) :
    newestFirst r s = order := by
  unfold compareNewest at h
  unfold newestFirst
  cases hv : r.version? with
  | none =>
      rw [hv] at h
      exact Except.ok.inj h
  | some v =>
      cases hw : s.version? with
      | none =>
          rw [hv, hw] at h
          exact Except.ok.inj h
      | some w =>
          rw [hv, hw] at h
          exact Version.newestFirst_of_compareNewest h

theorem stableSort_of_isSorted {releases : List Release} (h : isSorted releases = .ok true)
    (trans : IsTransitiveOn newestFirst releases) :
    stableSort newestFirst releases = releases := by
  refine stableSort_of_pairwise (pairwise_of_isSortedBy h (fun a b order hcompare hle => ?_) trans)
  rwa [newestFirst_of_compareNewest hcompare]

/-! ### Sorting -/

variable {releases sorted : List Release}

theorem sort_of_isSorted (h : isSorted releases = .ok true) : sort releases = .ok releases := by
  rw [sort, h]
  rfl

/-- Sorting leaves releases that are in order, and sorts others that can be compared. -/
theorem sort_eq_ok (h : sort releases = .ok sorted) :
    isSorted releases = .ok true ∧ sorted = releases ∨
      Version.anyClash (releases.filterMap version?) = false ∧ sorted = stableSort newestFirst releases := by
  unfold sort at h
  cases hsorted : isSorted releases with
  | error fault => simp [hsorted, bind, Except.bind] at h
  | ok inOrder =>
      rw [hsorted] at h
      cases inOrder with
      | true => exact .inl ⟨rfl, (Except.ok.inj h).symm⟩
      | false =>
          cases hclash : Version.anyClash (releases.filterMap version?) with
          | true => simp [hclash, bind, Except.bind] at h
          | false =>
              simp only [hclash] at h
              exact .inr ⟨rfl, (Except.ok.inj h).symm⟩

theorem perm_sort (h : sort releases = .ok sorted) : sorted.Perm releases := by
  rcases sort_eq_ok h with ⟨-, rfl⟩ | ⟨-, rfl⟩
  · exact .refl _
  · exact stableSort_perm releases

theorem isSorted_stableSort (unclashing : Version.anyClash (releases.filterMap version?) = false)
    (trans : IsTransitiveOn newestFirst releases) : isSorted (stableSort newestFirst releases) = .ok true := by
  refine isSortedBy_of_pairwise (fun a ha b hb => ?_) (isStableSort_stableSort trans).ordered
  exact compareNewest_eq_ok unclashing (mem_stableSort.mp ha) (mem_stableSort.mp hb)

theorem of_sort (h : sort releases = .ok sorted) (trans : IsTransitiveOn newestFirst releases) :
    stableSort newestFirst releases = sorted ∧ isSorted sorted = .ok true := by
  rcases sort_eq_ok h with ⟨inOrder, rfl⟩ | ⟨unclashing, rfl⟩
  · exact ⟨stableSort_of_isSorted inOrder trans, inOrder⟩
  · exact ⟨rfl, isSorted_stableSort unclashing trans⟩

theorem exists_sort (unclashing : Version.anyClash (releases.filterMap version?) = false) :
    ∃ sorted, sort releases = .ok sorted := by
  obtain ⟨inOrder, hsorted⟩ : ∃ inOrder, isSorted releases = .ok inOrder :=
    exists_isSortedBy fun a ha b hb => ⟨_, compareNewest_eq_ok unclashing ha hb⟩
  unfold sort
  rw [hsorted]
  cases inOrder with
  | true => exact ⟨releases, rfl⟩
  | false =>
      rw [unclashing]
      exact ⟨stableSort newestFirst releases, rfl⟩

end Release

end Changelog
