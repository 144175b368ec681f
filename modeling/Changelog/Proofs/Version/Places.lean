import Changelog.Proofs.Version.Neighbours

/-! # Releases that keep their places

A release without a version is compared by its place, with every other release. So where comparison is transitive, what
stands in front of such a release does not come after it, what stands behind it does not come before it, and sorting
leaves it where it is.
-/

namespace Changelog

section

variable {α : Type} {before after front back : List α} {a : α}

/-- An item has as many items in front of it in two orders of the same items, if the same ones come before it. -/
theorem length_eq_of_perm (perm : (before ++ a :: after).Perm (front ++ a :: back)) (p : α → Bool)
    (hbefore : ∀ b ∈ before, p b) (hfront : ∀ b ∈ front, p b) (hafter : ∀ b ∈ a :: after, p b = false)
    (hback : ∀ b ∈ a :: back, p b = false) : before.length = front.length := by
  have earlier : ∀ {xs ys : List α}, (∀ b ∈ xs, p b) → (∀ b ∈ ys, p b = false) → (xs ++ ys).filter p = xs := by
    intro xs ys hxs hys
    have none : ys.filter p = [] := List.filter_eq_nil_iff.mpr fun b hb => ne_true_of_eq_false (hys b hb)
    rw [List.filter_append, List.filter_eq_self.mpr hxs, none, List.append_nil]
  have := (perm.filter p).length_eq
  rwa [earlier hbefore hafter, earlier hfront hback] at this

end

namespace Release

variable {releases sorted : List Release} {a b r : Release}

/-- Is comparison transitive on the releases? It finds out how far apart any two of them are, and of three releases that
    are pairwise in order the first and the last are in order. -/
def ComparesTransitively (releases : List Release) : Prop :=
  ∀ a ∈ releases, ∀ b ∈ releases, ∀ c ∈ releases, ∃ ab bc ac,
    a.distance b = .ok ab ∧ b.distance c = .ok bc ∧ a.distance c = .ok ac ∧ (ab ≤ 0 → bc ≤ 0 → ac ≤ 0)

theorem order_of_indexes (m n : Nat) :
    ((compare m n).isLE ↔ (m : Int) - n ≤ 0) ∧ (compare m n = .eq ↔ (m : Int) - n = 0) := by
  rw [Std.isLE_compare, Std.compare_eq_iff_eq]
  omega

theorem of_distance {d : Int} (h : a.distance b = .ok d) : compareNewest a b = .ok (newestFirst a b) ∧
    ((newestFirst a b).isLE ↔ d ≤ 0) ∧ (newestFirst a b = .eq ↔ d = 0) := by
  unfold distance at h
  unfold compareNewest newestFirst
  cases hv : a.version? with
  | none =>
      simp only [hv, Except.ok.injEq] at h
      exact ⟨rfl, h ▸ order_of_indexes a.index b.index⟩
  | some v =>
      cases hw : b.version? with
      | none =>
          simp only [hv, hw, Except.ok.injEq] at h
          exact ⟨rfl, h ▸ order_of_indexes a.index b.index⟩
      | some w =>
          simp only [hv, hw] at h ⊢
          cases hcompare : Version.compareNewest v w with
          | error fault => simp [hcompare, Except.map] at h
          | ok order =>
              rw [Version.newestFirst_of_compareNewest hcompare]
              rw [hcompare] at h
              obtain rfl := Except.ok.inj h
              cases order <;> decide

theorem exists_distance (h : ComparesTransitively releases) (ha : a ∈ releases) (hb : b ∈ releases) :
    ∃ d, a.distance b = .ok d := by
  obtain ⟨d, -, -, hd, -⟩ := h a ha b hb b hb
  exact ⟨d, hd⟩

theorem ComparesTransitively.isTransitiveOn (h : ComparesTransitively releases) : IsTransitiveOn newestFirst releases := by
  intro a ha b hb c hc hab hbc
  obtain ⟨ab, bc, ac, dab, dbc, dac, trans⟩ := h a ha b hb c hc
  rw [(of_distance dab).2.1] at hab
  rw [(of_distance dbc).2.1] at hbc
  exact (of_distance dac).2.1.mpr (trans hab hbc)

theorem ComparesTransitively.anyClash_eq_false (h : ComparesTransitively releases) :
    Version.anyClash (releases.filterMap version?) = false := by
  cases clashes : Version.anyClash (releases.filterMap version?) with
  | false => rfl
  | true =>
      simp only [Version.anyClash, List.any_eq_true, Bool.and_eq_true, bne_iff_ne, List.mem_filterMap] at clashes
      obtain ⟨v, ⟨a, ha, hv⟩, ⟨long, valid⟩, w, ⟨b, hb, hw⟩, other, valid'⟩ := clashes
      obtain ⟨d, hd⟩ := exists_distance h ha hb
      have clash : Version.clash v w = true := by simp [Version.clash, long, valid, valid', other]
      simp [distance, hv, hw, Version.compareNewest, clash, Except.map] at hd

theorem newestFirst_of_unversioned (h : a.version? = none ∨ b.version? = none) :
    newestFirst a b = compare a.index b.index := by
  unfold newestFirst
  rcases h with h | h
  · rw [h]
  · rw [h]
    cases a.version? <;> rfl

/-- A release without a version has the same releases in front of it, in whatever order they are, once all are sorted. -/
theorem getElem?_of_unversioned (numbered : releases.Pairwise (·.index < ·.index)) (perm : sorted.Perm releases)
    (ordered : sorted.Pairwise fun a b => (newestFirst a b).isLE) {i : Nat} (hr : releases[i]? = some r)
    (unversioned : r.version? = none) : sorted[i]? = some r := by
  obtain ⟨inside, rfl⟩ := List.getElem?_eq_some_iff.mp hr
  have split : releases = releases.take i ++ releases[i] :: releases.drop (i + 1) := by
    rw [List.getElem_cons_drop, List.take_append_drop]
  generalize releases[i] = r at *
  obtain ⟨before, after, rfl⟩ := List.append_of_mem (perm.mem_iff.mpr (split ▸ by simp : r ∈ releases))
  have distinct : (before ++ r :: after).Pairwise fun a b => a.index ≠ b.index :=
    (perm.pairwise_iff fun h => Ne.symm h).mpr (numbered.imp Nat.ne_of_lt)
  rw [split] at numbered perm
  obtain ⟨-, behind, ahead⟩ := List.pairwise_append.mp numbered
  obtain ⟨-, following, preceding⟩ := List.pairwise_append.mp ordered
  have length : before.length = (releases.take i).length := by
    refine length_eq_of_perm perm (fun x => x.index < r.index) (fun x hx => ?_) (fun x hx => ?_) (fun x hx => ?_)
      (fun x hx => ?_)
    · have le := preceding x hx r List.mem_cons_self
      rw [newestFirst_of_unversioned (Or.inr unversioned), Std.isLE_compare] at le
      have ne := (List.pairwise_append.mp distinct).2.2 x hx r List.mem_cons_self
      exact decide_eq_true (Nat.lt_of_le_of_ne le ne)
    · exact decide_eq_true (ahead x hx r List.mem_cons_self)
    · rcases List.mem_cons.mp hx with rfl | hx
      · simp
      · have le := (List.pairwise_cons.mp following).1 x hx
        rw [newestFirst_of_unversioned (Or.inl unversioned), Std.isLE_compare] at le
        simpa using le
    · rcases List.mem_cons.mp hx with rfl | hx
      · simp
      · simpa using Nat.le_of_lt ((List.pairwise_cons.mp behind).1 x hx)
  have place : i = before.length := by
    rw [length, List.length_take]
    omega
  rw [place, List.getElem?_append_right (Nat.le_refl _), Nat.sub_self]
  rfl

/-- Where comparison is transitive, sorting releases that are numbered in their order gives the same releases, newest
    first; those of equal rank stay in their order, and those without a version in their places. -/
theorem sort_keeps_places (numbered : releases.Pairwise (·.index < ·.index)) (compared : ComparesTransitively releases) :
    ∃ sorted, sort releases = .ok sorted ∧ sorted.Perm releases ∧ isSorted sorted = .ok true ∧
      (∀ a b, [a, b].Sublist releases → a.distance b = .ok 0 → [a, b].Sublist sorted) ∧
      ∀ (i : Nat) (r : Release), releases[i]? = some r → r.version? = none → sorted[i]? = some r := by
  obtain ⟨sorted, hsorted⟩ := exists_sort compared.anyClash_eq_false
  obtain ⟨rfl, inOrder⟩ := of_sort hsorted compared.isTransitiveOn
  obtain ⟨perm, ordered, stable⟩ := isStableSort_stableSort compared.isTransitiveOn
  refine ⟨_, hsorted, perm, inOrder, fun a b hsub same => stable a b hsub ?_,
    fun i r hr => getElem?_of_unversioned numbered perm ordered hr⟩
  rw [(of_distance same).2.2.mpr rfl]
  rfl

/-- Two releases in the wrong order on either side of one without a version. -/
def partedReleases : List Release :=
  ["1.0.0", "2.0.0", "", "0.1.0", "0.2.0"].mapIdx fun index version =>
    Release.ofHeading index (Node.heading 2 [Node.ofText (Text.ofString version)])

/-- The one in the middle stays there. -/
theorem sort_keeps_places_parted : partedReleases.Pairwise (·.index < ·.index) ∧ ComparesTransitively partedReleases ∧
    ∃ sorted, sort partedReleases = .ok sorted ∧ sorted.Perm partedReleases ∧ isSorted sorted = .ok true ∧
      (∀ a b, [a, b].Sublist partedReleases → a.distance b = .ok 0 → [a, b].Sublist sorted) ∧
      ∀ (i : Nat) (r : Release), partedReleases[i]? = some r → r.version? = none → sorted[i]? = some r := by
  have numbered : partedReleases.Pairwise (·.index < ·.index) := by decide +kernel
  have compared : ComparesTransitively partedReleases := by
    have known : ∀ a ∈ partedReleases, ∀ b ∈ partedReleases, a.distance b = .ok ((a.distance b).toOption.getD 0) := by
      decide +kernel
    have trans : ∀ a ∈ partedReleases, ∀ b ∈ partedReleases, ∀ c ∈ partedReleases, (a.distance b).toOption.getD 0 ≤ 0 →
        (b.distance c).toOption.getD 0 ≤ 0 → (a.distance c).toOption.getD 0 ≤ 0 := by
      decide +kernel
    exact fun a ha b hb c hc =>
      ⟨_, _, _, known a ha b hb, known b hb c hc, known a ha c hc, trans a ha b hb c hc⟩
  exact ⟨numbered, compared, sort_keeps_places numbered compared⟩

end Release

end Changelog
