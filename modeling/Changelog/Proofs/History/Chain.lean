import Changelog.Proofs.History.Merge
import Mathlib.Data.List.Forall2

/-! # Chains of credited commits

Whatever the log lists, even commits twice or in a circle, the walk of a merge goes from parent to child and ends. A commit
that several walks come to is told the last one of their merges. Commits are told apart by their places in the list.
-/

namespace Changelog

theorem find?_reverse_eq_some_iff {α : Type} {rank : α → Nat} {p : α → Bool} {items : List α} {a : α}
    (ascending : items.Pairwise fun a b => rank a < rank b) :
    items.reverse.find? p = some a ↔ a ∈ items ∧ p a ∧ ∀ b ∈ items, rank a < rank b → p b = false := by
  induction items using List.reverseRecOn with
  | nil => simp
  | append_singleton front last ih =>
      obtain ⟨hfront, -, below⟩ := List.pairwise_append.mp ascending
      replace below : ∀ b ∈ front, rank b < rank last := fun b hb => below b hb last List.mem_cons_self
      rw [List.reverse_append, List.reverse_singleton, List.singleton_append]
      simp only [List.mem_append, List.mem_singleton]
      cases hlast : p last with
      | true =>
          rw [List.find?_cons_of_pos hlast]
          constructor
          · rintro ⟨⟩
            refine ⟨Or.inr rfl, hlast, ?_⟩
            rintro b (hb | rfl) after
            · exact absurd (below b hb) after.asymm
            · exact absurd after (lt_irrefl _)
          · rintro ⟨ha | rfl, -, after⟩
            · exact absurd (after last (Or.inr rfl) (below a ha)) (by simp [hlast])
            · rfl
      | false =>
          rw [List.find?_cons_of_neg (by simp [hlast]), ih hfront]
          constructor
          · rintro ⟨ha, hp, after⟩
            refine ⟨Or.inl ha, hp, ?_⟩
            rintro b (hb | rfl) hab
            · exact after b hb hab
            · exact hlast
          · rintro ⟨ha | rfl, hp, after⟩
            · exact ⟨ha, hp, fun b hb => after b (Or.inl hb)⟩
            · rw [hlast] at hp
              contradiction

namespace History

variable {commits : List Commit} {commit merge : Commit} {credit : Credit} {limit place : Nat} {oid tip mainline : Text}

/-! ## Steps of a walk -/

theorem pairwise_zipIdx (commits : List Commit) : commits.zipIdx.Pairwise fun a b => a.2 < b.2 := by
  rw [← List.pairwise_map (f := Prod.snd) (R := (· < ·)), List.zipIdx_map_snd]
  exact List.pairwise_lt_range'

/-- A step goes to a commit whose only parent is the one that is left, and no such commit is listed later. -/
theorem childOf?_eq_some_iff : childOf? commits oid = some (place, commit) ↔ commits[place]? = some commit ∧
    commit.parents = [oid] ∧ ∀ other later, commits[later]? = some other → place < later → other.parents ≠ [oid] := by
  have found : childOf? commits oid = some (place, commit) ↔
      commits.zipIdx.reverse.find? (fun entry => entry.1.parents = [oid]) = some (commit, place) := by
    simp only [childOf?, Option.map_eq_some_iff, Prod.exists, Prod.mk.injEq]
    constructor
    · rintro ⟨_, _, hfind, rfl, rfl⟩
      exact hfind
    · exact fun hfind => ⟨commit, place, hfind, rfl, rfl⟩
  rw [found, find?_reverse_eq_some_iff (pairwise_zipIdx commits)]
  simp only [Prod.forall, List.mem_zipIdx_iff_getElem?, decide_eq_true_eq, decide_eq_false_iff_not, ne_eq]

theorem childOf?_eq_none_iff : childOf? commits oid = none ↔ ∀ commit ∈ commits, commit.parents ≠ [oid] := by
  simp only [childOf?, Option.map_eq_none_iff, List.find?_eq_none, List.mem_reverse, Prod.forall,
    List.mem_zipIdx_iff_getElem?, decide_eq_true_eq]
  constructor
  · intro h commit hcommit
    obtain ⟨place, hget⟩ := List.getElem?_of_mem hcommit
    exact h commit place hget
  · exact fun h commit place hget => h commit (List.mem_of_getElem? hget)

/-! ## Whole walks -/

/-- Where a walk has been: the commit that it starts behind, and the commits that it comes to. -/
def positions (mainline : Text) (walk : List Commit) : List Text := mainline :: walk.map Commit.oid

/-- Is a walk one from parent to child? Its commits are those at the given places, and each of them is the last listed one
    whose only parent is the commit before it. It does not go on behind the tip, and it ends there, at the limit, or where
    no listed commit has the last one for its only parent. -/
structure IsParentChain (commits : List Commit) (mainline tip : Text) (limit : Nat) (places : List Nat)
    (walk : List Commit) : Prop where
  listed : List.Forall₂ (fun place commit => commits[place]? = some commit) places walk
  linked : List.Forall₂ (fun commit oid => commit.parents = [oid]) walk (positions mainline walk).dropLast
  latest : ∀ place ∈ places, ∀ later, place < later → commits[later]?.map Commit.parents ≠ commits[place]?.map Commit.parents
  bounded : walk.length ≤ limit
  onward : tip ∉ (positions mainline walk).dropLast
  ended : ∃ last ∈ (positions mainline walk).getLast?,
    last = tip ∨ walk.length = limit ∨ ∀ commit ∈ commits, commit.parents ≠ [last]

theorem IsParentChain.stay (h : mainline = tip ∨ limit = 0 ∨ ∀ commit ∈ commits, commit.parents ≠ [mainline]) :
    IsParentChain commits mainline tip limit [] [] where
  listed := .nil
  linked := .nil
  latest := List.forall_mem_nil _
  bounded := Nat.zero_le limit
  onward := List.not_mem_nil
  ended := ⟨mainline, rfl, h.imp_right fun h => h.imp_left Eq.symm⟩

theorem IsParentChain.step {child : Commit} {places : List Nat} {walk : List Commit} (apart : mainline ≠ tip)
    (hchild : childOf? commits mainline = some (place, child)) (h : IsParentChain commits child.oid tip limit places walk) :
    IsParentChain commits mainline tip (limit + 1) (place :: places) (child :: walk) := by
  obtain ⟨hget, hparents, later⟩ := childOf?_eq_some_iff.mp hchild
  have front : (positions mainline (child :: walk)).dropLast = mainline :: (positions child.oid walk).dropLast := rfl
  have last : (positions mainline (child :: walk)).getLast? = (positions child.oid walk).getLast? := rfl
  refine ⟨.cons hget h.listed, front ▸ .cons hparents h.linked, ?_, Nat.succ_le_succ h.bounded, ?_, ?_⟩
  · refine List.forall_mem_cons.mpr ⟨fun i behind same => ?_, h.latest⟩
    rw [hget, Option.map_some, hparents, Option.map_eq_some_iff] at same
    obtain ⟨other, hother, same⟩ := same
    exact later other i hother behind same
  · rw [front, List.mem_cons, not_or]
    exact ⟨apart.symm, h.onward⟩
  · obtain ⟨final, hfinal, reason⟩ := h.ended
    exact ⟨final, last ▸ hfinal, reason.imp_right fun reason => reason.imp_left (congrArg (· + 1))⟩

/-- The walk is one from parent to child. -/
theorem exists_isParentChain (commits : List Commit) (tip : Text) (limit : Nat) (mainline : Text) :
    ∃ walk, IsParentChain commits mainline tip limit (chain commits tip limit mainline) walk := by
  induction limit generalizing mainline with
  | zero => exact ⟨[], .stay (Or.inr (Or.inl rfl))⟩
  | succ limit ih =>
      unfold chain
      split
      next same => exact ⟨[], .stay (Or.inl same)⟩
      next apart =>
        split
        next childless => exact ⟨[], .stay (Or.inr (Or.inr (childOf?_eq_none_iff.mp childless)))⟩
        next place child hchild =>
          obtain ⟨walk, hwalk⟩ := ih child.oid
          exact ⟨child :: walk, .step apart hchild hwalk⟩

/-! ## The chain of a merge and the merge of a commit -/

/-- The places of the commits that the commit at a place is credited with, in the order of the walk. -/
def chainAt (commits : List Commit) (limit place : Nat) : List Nat :=
  (((credits commits limit).find? fun credit => credit.place = place).map Credit.chain).getD []

/-- The place of the merge that the commit at a place is told. -/
def mergerAt (commits : List Commit) (limit place : Nat) : Option Nat :=
  (creditOf? (credits commits limit) place).map Credit.place

theorem chainAt_of_mem (h : credit ∈ credits commits limit) : chainAt commits limit credit.place = credit.chain := by
  rw [chainAt, find?_credits h]
  rfl

theorem mem_chainAt {i : Nat} : i ∈ chainAt commits limit place ↔
    ∃ credit ∈ credits commits limit, credit.place = place ∧ i ∈ credit.chain := by
  constructor
  · intro h
    unfold chainAt at h
    cases hfind : (credits commits limit).find? fun credit => credit.place = place with
    | none => simp [hfind] at h
    | some credit =>
        rw [hfind] at h
        exact ⟨credit, List.mem_of_find?_eq_some hfind, by simpa using List.find?_some hfind, h⟩
  · rintro ⟨credit, hcredit, rfl, hi⟩
    rwa [chainAt_of_mem hcredit]

theorem chainAt_of_merge {request : Nat} (hget : commits[place]? = some merge) (hparents : merge.parents = [mainline, tip])
    (hrequest : merge.request = some request) : chainAt commits limit place = chain commits tip limit mainline := by
  let credit : Credit := { place, request, chain := chain commits tip limit mainline }
  have own : credit? commits limit (merge, place) = some credit := by
    obtain ⟨⟩ := merge
    cases hparents
    cases hrequest
    rfl
  have hcredit : credit ∈ credits commits limit := mem_credits.mpr ⟨merge, hget, own⟩
  exact chainAt_of_mem hcredit

theorem chainAt_of_other (hget : commits[place]? = some commit)
    (other : commit.parents.length ≠ 2 ∨ commit.request = none) : chainAt commits limit place = [] := by
  refine List.eq_nil_iff_forall_not_mem.mpr fun i hi => ?_
  obtain ⟨credit, hcredit, rfl, -⟩ := mem_chainAt.mp hi
  obtain ⟨merge, hmerge, own⟩ := mem_credits.mp hcredit
  obtain rfl := Option.some.inj (hget.symm.trans hmerge)
  obtain ⟨mainline, tip, hparents, hrequest, -⟩ := of_credit? own
  rcases other with other | other
  · exact other (by rw [hparents]; rfl)
  · rw [hrequest] at other
    contradiction

theorem pairwise_credits (commits : List Commit) (limit : Nat) :
    (credits commits limit).Pairwise fun a b => a.place < b.place := by
  refine (pairwise_zipIdx commits).filterMap (credit? commits limit) ?_
  rintro ⟨a, i⟩ ⟨b, j⟩ hij credit hcredit other hother
  rwa [place_of_credit? hcredit, place_of_credit? hother]

theorem mergerAt_eq_some_iff {i : Nat} : mergerAt commits limit i = some place ↔
    i ∈ chainAt commits limit place ∧ ∀ later, place < later → i ∉ chainAt commits limit later := by
  simp only [mergerAt, creditOf?, Option.map_eq_some_iff, find?_reverse_eq_some_iff (pairwise_credits commits limit),
    decide_eq_true_eq, decide_eq_false_iff_not]
  constructor
  · rintro ⟨credit, ⟨hcredit, hi, after⟩, rfl⟩
    refine ⟨mem_chainAt.mpr ⟨credit, hcredit, rfl, hi⟩, fun later behind hmem => ?_⟩
    obtain ⟨other, hother, rfl, held⟩ := mem_chainAt.mp hmem
    exact after other hother behind held
  · rintro ⟨hi, after⟩
    obtain ⟨credit, hcredit, rfl, held⟩ := mem_chainAt.mp hi
    exact ⟨credit, ⟨hcredit, held, fun other hother behind hmem =>
      after other.place behind (mem_chainAt.mpr ⟨other, hother, rfl, hmem⟩)⟩, rfl⟩

theorem mergerAt_eq_none_iff {i : Nat} : mergerAt commits limit i = none ↔ ∀ place, i ∉ chainAt commits limit place := by
  simp only [mergerAt, creditOf?, Option.map_eq_none_iff, List.find?_eq_none, List.mem_reverse, decide_eq_true_eq, mem_chainAt]
  constructor
  · rintro h place ⟨credit, hcredit, -, hi⟩
    exact h credit hcredit hi
  · exact fun h credit hcredit hi => h credit.place ⟨credit, hcredit, rfl, hi⟩

/-! ## What commits are told -/

theorem getElem?_attributeMerges : (attributeMerges commits limit)[place]? =
    commits[place]?.map fun commit => credited commits (credits commits limit) (commit, place) := by
  rw [attributeMerges, List.getElem?_map, List.getElem?_zipIdx, Option.map_map, Nat.zero_add]
  rfl

/-- A commit that was told nothing before is told the commits of its chain, latest first. -/
theorem brought_eq_chainAt (plain : commit.brought = []) :
    (credited commits (credits commits limit) (commit, place)).brought =
      (chainAt commits limit place).reverse.filterMap fun i => commits[i]?.map Commit.oid := by
  rw [brought_credited, chainAt]
  cases (credits commits limit).find? fun credit => credit.place = place with
  | none => exact plain
  | some credit => rfl

theorem told_of_mergerAt {p : Nat} (hmerger : mergerAt commits limit place = some p) (hmerge : commits[p]? = some merge) :
    (credited commits (credits commits limit) (commit, place)).merger = some { oid := merge.oid, author := merge.author } ∧
      (credited commits (credits commits limit) (commit, place)).request = merge.request := by
  obtain ⟨credit, hcredit, rfl⟩ := Option.map_eq_some_iff.mp hmerger
  obtain ⟨_, hmerge', own⟩ := mem_credits.mp (of_creditOf? hcredit).1
  obtain rfl := Option.some.inj (hmerge.symm.trans hmerge')
  obtain ⟨_, _, -, hrequest, -⟩ := of_credit? own
  rw [merger_credited.1, merger_credited.2, hcredit, Option.elim_some, Option.elim_some, hmerge, hrequest]
  exact ⟨rfl, rfl⟩

theorem told_of_mergerAt_eq_none (hmerger : mergerAt commits limit place = none) :
    (credited commits (credits commits limit) (commit, place)).merger = commit.merger ∧
      (credited commits (credits commits limit) (commit, place)).request = commit.request := by
  rw [merger_credited.1, merger_credited.2, Option.map_eq_none_iff.mp hmerger]
  exact ⟨rfl, rfl⟩

theorem filterMap_oid {places : List Nat} {walk : List Commit}
    (h : List.Forall₂ (fun place commit => commits[place]? = some commit) places walk) :
    (places.filterMap fun i => commits[i]?.map Commit.oid) = walk.map Commit.oid := by
  induction h with
  | nil => rfl
  | cons hget _ ih => rw [List.filterMap_cons, hget, Option.map_some, List.map_cons, ih]

/-- Every listed commit is told what the walks come to. A pull request merge with two parents is credited with a chain of
    commits from parent to child, told latest first, and every other commit with nothing. A commit of a chain is told the
    last merge with a chain that holds it, and the number of that; a commit of no chain is told nothing. -/
theorem attributeMerges_chains {log : Text} (read : Commit.ofLog log = .ok commits) (limit : Nat)
    (listed : commits[place]? = some commit) : ∃ told, (attributeMerges commits limit)[place]? = some told ∧
      (∀ mainline tip, commit.parents = [mainline, tip] → commit.request.isSome →
        ∃ walk, IsParentChain commits mainline tip limit (chainAt commits limit place) walk ∧
          told.brought.reverse = walk.map Commit.oid) ∧
      (commit.parents.length ≠ 2 ∨ commit.request = none → chainAt commits limit place = [] ∧ told.brought = []) ∧
      (∀ p merge, commits[p]? = some merge → place ∈ chainAt commits limit p →
        (∀ later, p < later → place ∉ chainAt commits limit later) →
          told.merger = some { oid := merge.oid, author := merge.author } ∧ told.request = merge.request) ∧
      ((∀ p, place ∉ chainAt commits limit p) → told.merger = none ∧ told.request = commit.request) := by
  obtain ⟨unknown, plain⟩ := Commit.of_mem_ofLog read (List.mem_of_getElem? listed)
  refine ⟨credited commits (credits commits limit) (commit, place), ?_, ?_, ?_, ?_, ?_⟩
  · rw [getElem?_attributeMerges, listed, Option.map_some]
  · intro mainline tip hparents hrequest
    obtain ⟨request, hrequest⟩ := Option.isSome_iff_exists.mp hrequest
    obtain ⟨walk, hwalk⟩ := exists_isParentChain commits tip limit mainline
    rw [← chainAt_of_merge listed hparents hrequest] at hwalk
    refine ⟨walk, hwalk, ?_⟩
    rw [brought_eq_chainAt plain, List.filterMap_reverse, List.reverse_reverse, filterMap_oid hwalk.listed]
  · intro other
    have empty : chainAt commits limit place = [] := chainAt_of_other listed other
    exact ⟨empty, by rw [brought_eq_chainAt plain, empty]; rfl⟩
  · intro p merge hmerge hplace last
    exact told_of_mergerAt (mergerAt_eq_some_iff.mpr ⟨hplace, last⟩) hmerge
  · intro none
    rw [← unknown]
    exact told_of_mergerAt_eq_none (mergerAt_eq_none_iff.mpr none)

def sampleCommit (oid : Char) (parents : List Char) (message : String) (request : Option Nat) : Commit :=
  { oid := [oid], title := Text.ofString message, description := [], author := sampleSignature, committer := sampleSignature
    parents := parents.map fun parent => [parent], request, isMerge := decide (1 < parents.length) }

/-- A log in which two commits are each other's parent. -/
def circularHistory : List LogRecord := [
  sampleRecord 'd' ['a', 'c'] "Merge pull request #5", sampleRecord 'b' ['a'] "Add", sampleRecord 'a' ['b'] "Start"]

def circularCommits : List Commit := [
  sampleCommit 'd' ['a', 'c'] "Merge pull request #5" (some 5), sampleCommit 'b' ['a'] "Add" none,
  sampleCommit 'a' ['b'] "Start" none]

/-- The walk of `d` goes to and fro between `b` and `a` until the limit is reached. -/
theorem attributeMerges_chains_circular : Commit.ofLog (LogRecord.print circularHistory) = .ok circularCommits ∧
    ∃ told walk, (attributeMerges circularCommits 3)[0]? = some told ∧
      IsParentChain circularCommits ['a'] ['c'] 3 (chainAt circularCommits 3 0) walk ∧
        told.brought.reverse = walk.map Commit.oid ∧ told.brought = [['b'], ['a'], ['b']] := by
  have read : Commit.ofLog (LogRecord.print circularHistory) = .ok circularCommits := by decide
  have first : circularCommits[0]? = some (sampleCommit 'd' ['a', 'c'] "Merge pull request #5" (some 5)) := rfl
  obtain ⟨told, htold, chained, -⟩ := attributeMerges_chains read 3 first
  obtain ⟨walk, hwalk, hbrought⟩ := chained ['a'] ['c'] rfl rfl
  refine ⟨read, told, walk, htold, hwalk, hbrought, ?_⟩
  have brought : (attributeMerges circularCommits 3)[0]?.map Commit.brought = some [['b'], ['a'], ['b']] := by decide
  rw [htold] at brought
  exact Option.some.inj brought

end History

end Changelog
