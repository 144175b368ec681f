import Changelog.Proofs.History.Chain

/-! # The references between merges and commits

A merge is told the commits that it is credited with, and a commit is told one merge. Where the walks of two merges meet,
both are told the commit, and the commit is told the last of them. So what a commit is told can be relied on, and what a
merge is told only if no later one is told the same.
-/

namespace Changelog.History

variable {commits : List Commit} {commit merge : Commit} {limit place : Nat}

theorem exists_of_mergerAt {p : Nat} (h : mergerAt commits limit place = some p) : ∃ merge, commits[p]? = some merge := by
  obtain ⟨credit, hcredit, rfl⟩ := Option.map_eq_some_iff.mp h
  obtain ⟨merge, hmerge, -⟩ := mem_credits.mp (of_creditOf? hcredit).1
  exact ⟨merge, hmerge⟩

theorem merger_eq_mergerAt (unknown : commit.merger = none) :
    (credited commits (credits commits limit) (commit, place)).merger =
      ((mergerAt commits limit place).bind (commits[·]?)).map fun merge => { oid := merge.oid, author := merge.author } := by
  cases hmerger : mergerAt commits limit place with
  | none => rw [(told_of_mergerAt_eq_none hmerger).1, unknown, Option.bind_none, Option.map_none]
  | some p =>
      obtain ⟨merge, hmerge⟩ := exists_of_mergerAt hmerger
      rw [(told_of_mergerAt hmerger hmerge).1, Option.bind_some, hmerge, Option.map_some]

/-- Where names are distinct, a merge is told the name of a commit just if its chain holds the place of it. -/
theorem oid_mem_brought_iff (distinct : (commits.map Commit.oid).Nodup) (plain : merge.brought = []) {i : Nat}
    (hget : commits[i]? = some commit) :
    commit.oid ∈ (credited commits (credits commits limit) (merge, place)).brought ↔ i ∈ chainAt commits limit place := by
  rw [brought_eq_chainAt plain]
  simp only [List.mem_filterMap, List.mem_reverse, Option.map_eq_some_iff]
  constructor
  · rintro ⟨j, hj, other, hother, same⟩
    rwa [place_eq_of_nodup distinct hget hother same.symm]
  · exact fun hi => ⟨i, hi, commit, hget, rfl⟩

theorem oid_merger_eq_iff (distinct : (commits.map Commit.oid).Nodup) (unknown : commit.merger = none) {p : Nat}
    (hmerge : commits[p]? = some merge) :
    (credited commits (credits commits limit) (commit, place)).merger.map Merger.oid = some merge.oid ↔
      mergerAt commits limit place = some p := by
  rw [merger_eq_mergerAt unknown, Option.map_map]
  simp only [Option.map_eq_some_iff, Option.bind_eq_some_iff, Function.comp_apply]
  constructor
  · rintro ⟨other, ⟨q, hmerger, hother⟩, same⟩
    rwa [← place_eq_of_nodup distinct hother hmerge same]
  · exact fun hmerger => ⟨merge, ⟨p, hmerger, hmerge⟩, rfl⟩

/-- A commit is told a merge just if its place is in the chain of the merge and in that of no later one. Where names are
    distinct, they tell this too: a commit names a merge just if it is named by the merge and by no later one. -/
theorem merger_iff_last_brought {log : Text} (read : Commit.ofLog log = .ok commits) (limit : Nat) {i p : Nat}
    {told merge : Commit} (hi : (attributeMerges commits limit)[i]? = some told)
    (hp : (attributeMerges commits limit)[p]? = some merge) :
    told.merger = ((mergerAt commits limit i).bind (commits[·]?)).map (fun m => { oid := m.oid, author := m.author }) ∧
      merge.brought = (chainAt commits limit p).reverse.filterMap (fun place => commits[place]?.map Commit.oid) ∧
      (mergerAt commits limit i = some p ↔
        i ∈ chainAt commits limit p ∧ ∀ later, p < later → i ∉ chainAt commits limit later) ∧
      ((commits.map Commit.oid).Nodup → (told.merger.map Merger.oid = some merge.oid ↔ told.oid ∈ merge.brought ∧
        ∀ later other, p < later → (attributeMerges commits limit)[later]? = some other → told.oid ∉ other.brought)) := by
  rw [getElem?_attributeMerges, Option.map_eq_some_iff] at hi hp
  obtain ⟨commit, hcommit, rfl⟩ := hi
  obtain ⟨m, hm, rfl⟩ := hp
  have nothing {place : Nat} {commit : Commit} (hget : commits[place]? = some commit) :
      commit.merger = none ∧ commit.brought = [] := Commit.of_mem_ofLog read (List.mem_of_getElem? hget)
  refine ⟨merger_eq_mergerAt (nothing hcommit).1, brought_eq_chainAt (nothing hm).2, mergerAt_eq_some_iff, fun distinct => ?_⟩
  rw [oid_credited, oid_credited, oid_merger_eq_iff distinct (nothing hcommit).1 hm, mergerAt_eq_some_iff,
    oid_mem_brought_iff distinct (nothing hm).2 hcommit]
  refine and_congr_right fun _ => ⟨fun last later other behind hother => ?_, fun last later behind hi => ?_⟩
  · rw [getElem?_attributeMerges, Option.map_eq_some_iff] at hother
    obtain ⟨o, ho, rfl⟩ := hother
    rw [oid_mem_brought_iff distinct (nothing ho).2 hcommit]
    exact last later behind
  · -- only a listed commit has a chain
    obtain ⟨credit, hcredit, rfl, -⟩ := mem_chainAt.mp hi
    obtain ⟨o, ho, -⟩ := mem_credits.mp hcredit
    refine last credit.place _ behind ?_ ((oid_mem_brought_iff distinct (nothing ho).2 hcommit).mpr hi)
    rw [getElem?_attributeMerges, ho, Option.map_some]

/-! ### A branch that is merged twice -/

/-- The branch with `b` is merged into two branches, of which one is then merged into the other. -/
def twiceMergedHistory : List LogRecord := [
  sampleRecord 'e' ['d', 'c'] "Merge branch release", sampleRecord 'd' ['a', 'b'] "Merge pull request #6",
  sampleRecord 'c' ['a', 'b'] "Merge pull request #5", sampleRecord 'b' ['a'] "Add", sampleRecord 'a' [] "Start"]

def twiceMergedCommits : List Commit := [
  sampleCommit 'e' ['d', 'c'] "Merge branch release" none, sampleCommit 'd' ['a', 'b'] "Merge pull request #6" (some 6),
  sampleCommit 'c' ['a', 'b'] "Merge pull request #5" (some 5), sampleCommit 'b' ['a'] "Add" none,
  sampleCommit 'a' [] "Start" none]

theorem ofLog_twiceMerged : Commit.ofLog (LogRecord.print twiceMergedHistory) = .ok twiceMergedCommits := by
  decide

/-- The commit `b` names the merge `c`, which names it and is the last one to do so. -/
theorem merger_iff_last_brought_twice : Commit.ofLog (LogRecord.print twiceMergedHistory) = .ok twiceMergedCommits ∧
    ∃ told merge, (attributeMerges twiceMergedCommits 100)[3]? = some told ∧
      (attributeMerges twiceMergedCommits 100)[2]? = some merge ∧ told.oid = ['b'] ∧ merge.oid = ['c'] ∧
        (mergerAt twiceMergedCommits 100 3 = some 2 ↔ 3 ∈ chainAt twiceMergedCommits 100 2 ∧
          ∀ later, 2 < later → 3 ∉ chainAt twiceMergedCommits 100 later) ∧ mergerAt twiceMergedCommits 100 3 = some 2 ∧
        told.oid ∈ merge.brought := by
  refine ⟨ofLog_twiceMerged, _, _, rfl, rfl, rfl, rfl, ?_⟩
  obtain ⟨-, -, last, named⟩ := merger_iff_last_brought ofLog_twiceMerged 100 (i := 3) (p := 2) rfl rfl
  exact ⟨last, by decide, ((named (by decide)).mp (by decide)).1⟩

/-- The merge `d` names the commit `b`, and `b` names another merge. -/
theorem brought_without_merger : Commit.ofLog (LogRecord.print twiceMergedHistory) = .ok twiceMergedCommits ∧
    ∃ told merge, (attributeMerges twiceMergedCommits 100)[3]? = some told ∧
      (attributeMerges twiceMergedCommits 100)[1]? = some merge ∧ told.oid = ['b'] ∧ merge.oid = ['d'] ∧
        told.oid ∈ merge.brought ∧ told.merger.map Merger.oid = some ['c'] :=
  ⟨ofLog_twiceMerged, _, _, rfl, rfl, rfl, rfl, by decide, by decide⟩

end Changelog.History
