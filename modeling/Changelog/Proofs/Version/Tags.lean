import Changelog.Proofs.Text.Search
import Changelog.Proofs.Version.Comparison

/-! # The version of the last tag

The version of the last tag is found by sorting the versions of all tags. It is one that no other of them comes before, and any
two such versions are of equal rank, so which tags there are decides about it, and not the order in which they are listed.
-/

namespace Changelog.Version

variable {a b version : Text} {tags others versions : List Text}

theorem mem_tagged_iff : version ∈ tagged tags ↔ 'v' :: version ∈ tags ∧ isValid version := by
  have named (tag : Text) : Text.dropLead? ['v'] tag = some version ↔ tag = 'v' :: version := by
    rw [Text.dropLead?, List.isPrefixOf?_eq_some_iff_append_eq, List.singleton_append, eq_comm]
  simp only [tagged, List.mem_filter, List.mem_filterMap, named, exists_eq_right]

/-- Is the text one of the versions, and does none of them come before it? -/
structure IsFirstOf (version : Text) (versions : List Text) : Prop where
  mem : version ∈ versions
  first : ∀ other ∈ versions, (newestFirst version other).isLE

theorem IsFirstOf.newestFirst_eq (ha : IsFirstOf a versions) (hb : IsFirstOf b others)
    (same : ∀ version, version ∈ versions ↔ version ∈ others) : newestFirst a b = .eq := by
  have hab : (newestFirst a b).isLE := ha.first b ((same b).mpr hb.mem)
  have hba : (newestFirst b a).isLE := hb.first a ((same a).mp ha.mem)
  exact Std.OrientedCmp.isLE_antisymm hab hba

theorem isFirstOf_of_head? (h : (stableSort newestFirst versions).head? = some version) : IsFirstOf version versions := by
  obtain ⟨rest, sorted⟩ := List.head?_eq_some_iff.mp h
  have stable : IsStableSort newestFirst versions (version :: rest) :=
    sorted ▸ isStableSort_stableSort isTransitiveOn_of_transCmp
  refine ⟨stable.perm.mem_iff.mp List.mem_cons_self, fun other hother => ?_⟩
  rcases List.mem_cons.mp (stable.perm.mem_iff.mpr hother) with rfl | hrest
  · rw [newestFirst_self]
    rfl
  · exact List.rel_of_pairwise_cons stable.ordered hrest

theorem rel_head?_stableSort (comparable : ∀ version ∈ versions, IsComparable version)
    (same : ∀ version, version ∈ versions ↔ version ∈ others) :
    Option.Rel (fun a b => compareNewest a b = .ok .eq) (stableSort newestFirst versions).head?
      (stableSort newestFirst others).head? := by
  cases hhere : (stableSort newestFirst versions).head? with
  | none =>
      rw [List.head?_eq_none_iff, List.eq_nil_iff_forall_not_mem] at hhere
      have none : (stableSort newestFirst others).head? = none := by
        rw [List.head?_eq_none_iff, List.eq_nil_iff_forall_not_mem]
        intro version h
        exact hhere version (mem_stableSort.mpr ((same version).mpr (mem_stableSort.mp h)))
      rw [none]
      exact .none
  | some a =>
      have ha := isFirstOf_of_head? hhere
      cases hthere : (stableSort newestFirst others).head? with
      | none =>
          rw [List.head?_eq_none_iff, List.eq_nil_iff_forall_not_mem] at hthere
          exact absurd (mem_stableSort.mpr ((same a).mp ha.mem)) (hthere a)
      | some b =>
          have hb := isFirstOf_of_head? hthere
          refine .some ?_
          rw [compareNewest_of_isComparable (comparable a ha.mem) (comparable b ((same b).mpr hb.mem)),
            ha.newestFirst_eq hb same]

theorem isNewer_of_isLE (ha : IsComparable a) (hb : IsComparable b) (h : (newestFirst a b).isLE) :
    isNewer b a = .ok false := by
  have notFirst : (newestFirst b a == .lt) = false := by
    rw [newestFirst_swap b a]
    cases hab : newestFirst a b with
    | lt => rfl
    | eq => rfl
    | gt => simp [hab] at h
  rw [isNewer_of_isComparable hb ha, notFirst, Bool.and_false]

theorem lastTagged_eq_ok (short : ∀ version, 'v' :: version ∈ tags → IsComparable version) :
    lastTagged tags = .ok (stableSort newestFirst (tagged tags)).head? := by
  have comparable : ∀ version ∈ tagged tags, IsComparable version := fun version h => short version (mem_tagged_iff.mp h).1
  simp only [lastTagged, sortNewest, List.map_id, anyClash_eq_false_of_isComparable comparable]
  rfl

/-- There is a last tag just if some tag is a version behind the letter `v`. Its version is one of those that are tagged, none
    of these is newer, and however the tags are listed, a version of equal rank is found. -/
theorem lastTagged_newest (short : ∀ version, 'v' :: version ∈ tags → IsComparable version) :
    ∃ last, lastTagged tags = .ok last ∧ (last = none ↔ ∀ version, 'v' :: version ∈ tags → ¬isValid version) ∧
      (∀ version, last = some version → isValid version ∧ 'v' :: version ∈ tags ∧
        ∀ other, 'v' :: other ∈ tags → isValid other → isNewer other version = .ok false) ∧
      ∀ others : List Text, others.Perm tags → ∃ last', lastTagged others = .ok last' ∧
        Option.Rel (fun version other => compareNewest version other = .ok .eq) last last' := by
  refine ⟨_, lastTagged_eq_ok short, ?_, fun version h => ?_, fun others perm => ?_⟩
  · simp [List.head?_eq_none_iff, List.eq_nil_iff_forall_not_mem, mem_tagged_iff]
  · have newest := isFirstOf_of_head? h
    obtain ⟨hmem, valid⟩ := mem_tagged_iff.mp newest.mem
    refine ⟨valid, hmem, fun other hother validOther => ?_⟩
    exact isNewer_of_isLE (short version hmem) (short other hother)
      (newest.first other (mem_tagged_iff.mpr ⟨hother, validOther⟩))
  · have same (version : Text) : version ∈ tagged tags ↔ version ∈ tagged others := by
      rw [mem_tagged_iff, mem_tagged_iff, perm.mem_iff]
    refine ⟨_, lastTagged_eq_ok fun version h => short version (perm.mem_iff.mp h), ?_⟩
    exact rel_head?_stableSort (fun version h => short version (mem_tagged_iff.mp h).1) same

/-- Two spellings of the tenth candidate among older ones and tags that are no versions. -/
theorem lastTagged_newest_candidates :
    let tags := ["v1.0.0-rc9", "v1.0.0-rc10", "2.0.0", "v1.0.0-rc.10", "vanilla"].map Text.ofString
    (∀ version, 'v' :: version ∈ tags → IsComparable version) ∧
    ∃ last, lastTagged tags = .ok last ∧ (last = none ↔ ∀ version, 'v' :: version ∈ tags → ¬isValid version) ∧
      (∀ version, last = some version → isValid version ∧ 'v' :: version ∈ tags ∧
        ∀ other, 'v' :: other ∈ tags → isValid other → isNewer other version = .ok false) ∧
      ∀ others : List Text, others.Perm tags → ∃ last', lastTagged others = .ok last' ∧
        Option.Rel (fun version other => compareNewest version other = .ok .eq) last last' := by
  intro tags
  have short : ∀ version, 'v' :: version ∈ tags → IsComparable version := by
    have every : ∀ tag ∈ tags, hasLongCandidate (tag.drop 1) = false := by decide +kernel
    exact fun version h _ => every _ h
  exact ⟨short, lastTagged_newest short⟩

end Changelog.Version
