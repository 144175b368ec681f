import Changelog.Proofs.Version.Sorting

/-! # Ways of sorting releases

Where the order of releases is transitive, a stable sort has one result only. Where it is not, as a release without a
version between two others can make it, the result depends on which releases a sort compares.
-/

namespace Changelog

/-- A way of sorting releases, newest first. It compares the neighbours of its result, and fails only where it
    compares two versions that cannot be compared. -/
structure Sorting where
  sort : List Release → Except Fault (List Release)
  perm {releases sorted : List Release} : sort releases = .ok sorted → sorted.Perm releases
  sorts {releases sorted : List Release} : sort releases = .ok sorted →
    IsTransitiveOn Release.newestFirst releases →
    stableSort Release.newestFirst releases = sorted ∧ Release.isSorted sorted = .ok true
  completes {releases : List Release} : Version.anyClash (releases.filterMap Release.version?) = false →
    ∃ sorted, sort releases = .ok sorted
  /-- Releases in order are left as they are, and only neighbours are compared. -/
  keeps {releases : List Release} : Release.isSorted releases = .ok true → sort releases = .ok releases

namespace Sorting

/-- The one that takes apart and merges whatever is not in order. -/
def merging : Sorting where
  sort := Release.sort
  perm := Release.perm_sort
  sorts := Release.of_sort
  completes := Release.exists_sort
  keeps := Release.sort_of_isSorted

variable {sorting : Sorting} {releases : List Release}

/-- Where any two releases can be compared and their order is transitive, all ways of sorting are the same. -/
theorem sort_eq_ok (comparable : Version.anyClash (releases.filterMap Release.version?) = false)
    (trans : IsTransitiveOn Release.newestFirst releases) :
    sorting.sort releases = .ok (stableSort Release.newestFirst releases) := by
  obtain ⟨sorted, hsorted⟩ := sorting.completes comparable
  rw [hsorted, (sorting.sorts hsorted trans).1]

end Sorting

end Changelog
