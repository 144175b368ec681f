import Changelog.History.Merge
import Changelog.Proofs.History.Log
import Mathlib.Data.List.Nodup
import Mathlib.Logic.Relation

/-! # Which commits a merge is credited with

The walk from the mainline parent of a merge goes from commit to listed child, and it does not look at the branch before it
ends. So a merge is credited with commits of its own branch if nothing else was forked on the way, and with the commits
of another branch if that one was.
-/

namespace Changelog.History

/-- The parents of every commit, listed or not. -/
abbrev Parentage := Text → List Text

def IsAncestor (parents : Parentage) : Text → Text → Prop := Relation.TransGen fun a b => a ∈ parents b

/-- Was a commit brought in by a branch, as its tip or before it? -/
def IsBrought (parents : Parentage) (tip oid : Text) : Prop := oid = tip ∨ IsAncestor parents oid tip

/-- Distinct commits of a history in which no commit comes before itself. -/
structure IsListed (parents : Parentage) (commits : List Commit) : Prop where
  acyclic : ∀ oid, ¬IsAncestor parents oid oid
  distinct : (commits.map Commit.oid).Nodup
  known : ∀ commit ∈ commits, parents commit.oid = commit.parents

/-- Is a commit the mainline parent, or on a way from there to the tip of the branch? -/
def IsOnWay (parents : Parentage) (mainline tip oid : Text) : Prop :=
  oid = mainline ∨ IsAncestor parents mainline oid ∧ IsBrought parents tip oid

/-- Does nothing but the branch go on from the mainline parent and from the commits on the way to the tip? Only listed
    commits without another parent count. -/
def IsUnforked (parents : Parentage) (commits : List Commit) (mainline tip : Text) : Prop :=
  ∀ commit ∈ commits, ∀ oid, commit.parents = [oid] → oid ≠ tip → IsOnWay parents mainline tip oid →
    IsBrought parents tip commit.oid

variable {parents : Parentage} {commits : List Commit} {commit merge : Commit} {credit other : Credit} {limit place : Nat}
  {oid tip mainline : Text}

/-! ## The walk -/

theorem of_childOf? (h : childOf? commits oid = some (place, commit)) :
    commits[place]? = some commit ∧ commit.parents = [oid] := by
  simp only [childOf?, Option.map_eq_some_iff, Prod.exists, Prod.mk.injEq] at h
  obtain ⟨child, i, hfind, rfl, rfl⟩ := h
  have hmem : (child, i) ∈ commits.zipIdx := List.mem_reverse.mp (List.mem_of_find?_eq_some hfind)
  exact ⟨List.mem_zipIdx_iff_getElem?.mp hmem, by simpa using List.find?_some hfind⟩

/-- What a step of the walk keeps holds of every commit on it: `P` where a step starts, and `Q` where it ends. -/
theorem exists_of_mem_chain {P Q : Text → Prop} (goesOn : ∀ oid, Q oid → P oid)
    (step : ∀ commit ∈ commits, ∀ oid, commit.parents = [oid] → oid ≠ tip → P oid → Q commit.oid) {position : Text}
    (start : P position) (h : place ∈ chain commits tip limit position) :
    ∃ commit, commits[place]? = some commit ∧ (∃ oid, commit.parents = [oid]) ∧ Q commit.oid := by
  induction limit generalizing position with
  | zero => simp [chain] at h
  | succ limit ih =>
      unfold chain at h
      split at h
      · simp at h
      next apart =>
        split at h
        · simp at h
        next i child hchild =>
          obtain ⟨hget, hparents⟩ := of_childOf? hchild
          have reached : Q child.oid := step child (List.mem_of_getElem? hget) position hparents apart start
          rcases List.mem_cons.mp h with rfl | h
          · exact ⟨child, hget, ⟨position, hparents⟩, reached⟩
          · exact ih (goesOn _ reached) h

/-! ## Credits -/

theorem place_of_credit? (h : credit? commits limit (merge, place) = some credit) : credit.place = place := by
  unfold credit? at h
  split at h
  next heq =>
    cases h
    exact (Prod.mk.inj heq).2.symm
  · contradiction

theorem mem_credits : credit ∈ credits commits limit ↔
    ∃ merge, commits[credit.place]? = some merge ∧ credit? commits limit (merge, credit.place) = some credit := by
  simp only [credits, List.mem_filterMap, Prod.exists, List.mem_zipIdx_iff_getElem?]
  constructor
  · rintro ⟨merge, place, hget, hcredit⟩
    obtain rfl := place_of_credit? hcredit
    exact ⟨merge, hget, hcredit⟩
  · rintro ⟨merge, hget, hcredit⟩
    exact ⟨merge, credit.place, hget, hcredit⟩

theorem of_credit? (h : credit? commits limit (merge, place) = some credit) :
    ∃ mainline tip, merge.parents = [mainline, tip] ∧ merge.request = some credit.request ∧
      credit.chain = chain commits tip limit mainline := by
  unfold credit? at h
  split at h
  next heq =>
    cases h
    obtain ⟨rfl, -⟩ := Prod.mk.inj heq
    exact ⟨_, _, rfl, rfl, rfl⟩
  · contradiction

theorem eq_of_mem_credits (h : credit ∈ credits commits limit) (hother : other ∈ credits commits limit)
    (same : other.place = credit.place) : other = credit := by
  obtain ⟨merge, hget, hcredit⟩ := mem_credits.mp h
  obtain ⟨merge', hget', hcredit'⟩ := mem_credits.mp hother
  rw [same] at hget' hcredit'
  obtain rfl : merge = merge' := Option.some.inj (hget.symm.trans hget')
  exact Option.some.inj (hcredit'.symm.trans hcredit)

theorem find?_credits (h : credit ∈ credits commits limit) :
    (credits commits limit).find? (fun other => other.place = credit.place) = some credit := by
  cases hfind : (credits commits limit).find? fun other => other.place = credit.place with
  | none => simpa using List.find?_eq_none.mp hfind credit h
  | some other =>
      have same : other.place = credit.place := by simpa using List.find?_some hfind
      rw [eq_of_mem_credits h (List.mem_of_find?_eq_some hfind) same]

/-! ## The list with every credit given -/

theorem mem_attributeMerges : commit ∈ attributeMerges commits limit ↔
    ∃ (place : Nat) (listed : Commit), commits[place]? = some listed ∧
      commit = credited commits (credits commits limit) (listed, place) := by
  simp only [attributeMerges, List.mem_map, Prod.exists, List.mem_zipIdx_iff_getElem?]
  constructor
  · rintro ⟨listed, place, hget, rfl⟩
    exact ⟨place, listed, hget, rfl⟩
  · rintro ⟨place, listed, hget, rfl⟩
    exact ⟨listed, place, hget, rfl⟩

section

variable {given : List Credit}

@[simp] theorem oid_credited : (credited commits given (commit, place)).oid = commit.oid := by
  unfold credited
  dsimp only
  split <;> rfl

@[simp] theorem parents_credited : (credited commits given (commit, place)).parents = commit.parents := by
  unfold credited
  dsimp only
  split <;> rfl

theorem brought_credited : (credited commits given (commit, place)).brought =
    ((given.find? fun credit => credit.place = place).map fun credit =>
      credit.chain.reverse.filterMap fun i => commits[i]?.map Commit.oid).getD commit.brought := by
  unfold credited
  dsimp only
  split <;> rfl

theorem merger_credited : (credited commits given (commit, place)).merger =
      (creditOf? given place).elim commit.merger (fun credit =>
        commits[credit.place]?.map fun merge => { oid := merge.oid, author := merge.author }) ∧
    (credited commits given (commit, place)).request =
      (creditOf? given place).elim commit.request fun credit => some credit.request := by
  unfold credited
  dsimp only
  split <;> simp_all

end

theorem of_creditOf? (h : creditOf? (credits commits limit) place = some credit) :
    credit ∈ credits commits limit ∧ place ∈ credit.chain :=
  ⟨List.mem_reverse.mp (List.mem_of_find?_eq_some h), by simpa using List.find?_some h⟩

theorem exists_of_mem_brought (plain : merge.brought = [])
    (h : oid ∈ (credited commits (credits commits limit) (merge, place)).brought) :
    ∃ credit ∈ credits commits limit, credit.place = place ∧
      ∃ i ∈ credit.chain, commits[i]?.map Commit.oid = some oid := by
  rw [brought_credited] at h
  cases hfind : (credits commits limit).find? fun credit => credit.place = place with
  | none => simp [hfind, plain] at h
  | some credit =>
      simp only [hfind, Option.map_some, Option.getD_some, List.mem_filterMap, List.mem_reverse] at h
      exact ⟨credit, List.mem_of_find?_eq_some hfind, by simpa using List.find?_some hfind, h⟩

theorem mem_brought_of_mem_chain (hcredit : credit ∈ credits commits limit) (hplace : credit.place = place)
    {i : Nat} (hi : i ∈ credit.chain) (hoid : commits[i]?.map Commit.oid = some oid) :
    oid ∈ (credited commits (credits commits limit) (merge, place)).brought := by
  rw [brought_credited, ← hplace, find?_credits hcredit]
  exact List.mem_filterMap.mpr ⟨i, List.mem_reverse.mpr hi, hoid⟩

/-- What is forked from a commit on the way comes after the mainline parent. -/
theorem IsListed.isAncestor_of_isOnWay (h : IsListed parents commits) (hcommit : commit ∈ commits)
    (hparents : commit.parents = [oid]) (onWay : IsOnWay parents mainline tip oid) :
    IsAncestor parents mainline commit.oid := by
  have step : oid ∈ parents commit.oid := by
    rw [h.known commit hcommit, hparents]
    exact List.mem_singleton_self oid
  rcases onWay with rfl | ⟨after, -⟩
  · exact .single step
  · exact after.tail step

/-- The walk stays with the branch, if nothing else is forked from it. -/
theorem IsUnforked.isBrought (h : IsUnforked parents commits mainline tip) (listed : IsListed parents commits) {i : Nat}
    (hi : i ∈ chain commits tip limit mainline) :
    ∃ commit, commits[i]? = some commit ∧ IsBrought parents tip commit.oid := by
  obtain ⟨commit, hget, -, -, brought⟩ := exists_of_mem_chain (P := IsOnWay parents mainline tip)
    (Q := fun oid => IsAncestor parents mainline oid ∧ IsBrought parents tip oid) (fun _ => Or.inr)
    (fun commit hcommit oid hparents apart onWay =>
      ⟨listed.isAncestor_of_isOnWay hcommit hparents onWay, h commit hcommit oid hparents apart onWay⟩) (Or.inl rfl) hi
  exact ⟨commit, hget, brought⟩

/-- A merge is on no walk, since the walk goes from child to child without another parent. -/
theorem creditOf?_of_merge (hmerge : commits[place]? = some merge) (hparents : merge.parents = [mainline, tip]) :
    creditOf? (credits commits limit) place = none := by
  cases h : creditOf? (credits commits limit) place with
  | none => rfl
  | some credit =>
      obtain ⟨hcredit, hplace⟩ := of_creditOf? h
      obtain ⟨_, _, hcredit⟩ := mem_credits.mp hcredit
      obtain ⟨_, _, _, _, hchain⟩ := of_credit? hcredit
      rw [hchain] at hplace
      obtain ⟨commit, hget, ⟨oid, hoid⟩, -⟩ := exists_of_mem_chain (P := fun _ => True) (Q := fun _ => True)
        (fun _ => id) (fun _ _ _ _ _ => id) trivial hplace
      obtain rfl := Option.some.inj (hmerge.symm.trans hget)
      rw [hparents] at hoid
      cases hoid

theorem place_eq_of_nodup (distinct : (commits.map Commit.oid).Nodup) {i j : Nat} {a b : Commit} (ha : commits[i]? = some a)
    (hb : commits[j]? = some b) (same : a.oid = b.oid) : i = j := by
  have hi : i < (commits.map Commit.oid).length := by
    rw [List.length_map]
    exact (List.getElem?_eq_some_iff.mp ha).1
  refine (List.getElem?_inj hi distinct).mp ?_
  rw [List.getElem?_map, List.getElem?_map, ha, hb, Option.map_some, Option.map_some, same]

theorem IsListed.place_eq (h : IsListed parents commits) {i j : Nat} {a b : Commit} (ha : commits[i]? = some a)
    (hb : commits[j]? = some b) (same : a.oid = b.oid) : i = j :=
  place_eq_of_nodup h.distinct ha hb same

/-- What a merge is credited with was brought in by its branch, as long as nothing else was forked on the way; and a commit
    that names the merge has its number, and is one that the merge is credited with. -/
theorem attributeMerges_brought {log : Text} (read : Commit.ofLog log = .ok commits) (listed : IsListed parents commits)
    (limit : Nat) : ∀ merge ∈ attributeMerges commits limit, ∀ mainline tip, merge.parents = [mainline, tip] →
      IsUnforked parents commits mainline tip →
        (∀ oid ∈ merge.brought, IsBrought parents tip oid) ∧
        ∀ commit ∈ attributeMerges commits limit, commit.merger.map Merger.oid = some merge.oid →
          commit.request = merge.request ∧ commit.oid ∈ merge.brought ∧ IsBrought parents tip commit.oid := by
  intro merge hmerge mainline tip hparents unforked
  obtain ⟨place, m, hm, rfl⟩ := mem_attributeMerges.mp hmerge
  rw [parents_credited] at hparents
  have sound : ∀ oid ∈ (credited commits (credits commits limit) (m, place)).brought, IsBrought parents tip oid := by
    intro oid hoid
    have plain : m.brought = [] := (Commit.of_mem_ofLog read (List.mem_of_getElem? hm)).2
    obtain ⟨credit, hcredit, rfl, i, hi, hget⟩ := exists_of_mem_brought plain hoid
    obtain ⟨m', hm', hcredit⟩ := mem_credits.mp hcredit
    obtain rfl := Option.some.inj (hm.symm.trans hm')
    obtain ⟨mainline', tip', hparents', -, hchain⟩ := of_credit? hcredit
    rw [hparents] at hparents'
    cases hparents'
    obtain ⟨commit, hcommit, brought⟩ := unforked.isBrought listed (hchain ▸ hi)
    rw [hcommit] at hget
    exact Option.some.inj hget ▸ brought
  refine ⟨sound, ?_⟩
  intro commit hcommit hmerger
  obtain ⟨i, c, hc, rfl⟩ := mem_attributeMerges.mp hcommit
  rw [oid_credited] at hmerger ⊢
  rw [merger_credited.1] at hmerger
  rw [merger_credited.2, merger_credited.2, creditOf?_of_merge hm hparents]
  cases hcredit : creditOf? (credits commits limit) i with
  | none =>
      have unknown : c.merger = none := (Commit.of_mem_ofLog read (List.mem_of_getElem? hc)).1
      simp [hcredit, unknown] at hmerger
  | some credit =>
      obtain ⟨hmem, hi⟩ := of_creditOf? hcredit
      obtain ⟨m', hm', hown⟩ := mem_credits.mp hmem
      have same : m'.oid = m.oid := by simpa [hcredit, hm'] using hmerger
      have hplace : credit.place = place := listed.place_eq hm' hm same
      rw [hplace, hm] at hm'
      obtain rfl := Option.some.inj hm'
      obtain ⟨_, _, -, hrequest, -⟩ := of_credit? hown
      have told : c.oid ∈ (credited commits (credits commits limit) (m, place)).brought :=
        mem_brought_of_mem_chain hmem hplace hi (by rw [hc]; rfl)
      exact ⟨hrequest.symm, told, sound _ told⟩

/-! ### Histories with branches -/

section

open Text (ofString)

/-- The parents that the records of a log tell. -/
def parentsIn (records : List LogRecord) : Parentage := fun oid =>
  ((records.find? fun r => r.oid = oid).map LogRecord.parents).getD []

theorem exists_of_mem_parentsIn {records : List LogRecord} {a b : Text} (h : a ∈ parentsIn records b) :
    ∃ r ∈ records, r.oid = b ∧ a ∈ r.parents := by
  unfold parentsIn at h
  cases hfind : records.find? fun r => r.oid = b with
  | none => simp [hfind] at h
  | some r =>
      rw [hfind] at h
      exact ⟨r, List.mem_of_find?_eq_some hfind, by simpa using List.find?_some hfind, h⟩

theorem parentsIn_of_mem {records : List LogRecord} (distinct : (records.map LogRecord.oid).Nodup) {r : LogRecord}
    (hr : r ∈ records) : parentsIn records r.oid = r.parents := by
  have hfind : records.find? (fun other => other.oid = r.oid) = some r := by
    cases hfind : records.find? fun other => other.oid = r.oid with
    | none => simpa using List.find?_eq_none.mp hfind r hr
    | some other =>
        have same : other.oid = r.oid := by simpa using List.find?_some hfind
        rw [List.inj_on_of_nodup_map distinct (List.mem_of_find?_eq_some hfind) hr same]
  rw [parentsIn, hfind]
  rfl

theorem lt_of_isAncestor {records : List LogRecord} {rank : Text → Nat}
    (grows : ∀ r ∈ records, ∀ parent ∈ r.parents, rank parent < rank r.oid) {a b : Text}
    (h : IsAncestor (parentsIn records) a b) : rank a < rank b := by
  have step : ∀ {a b}, a ∈ parentsIn records b → rank a < rank b := by
    intro a b hab
    obtain ⟨r, hr, rfl, ha⟩ := exists_of_mem_parentsIn hab
    exact grows r hr a ha
  induction h with
  | single hab => exact step hab
  | tail _ hbc ih => exact ih.trans (step hbc)

def sampleSignature : Signature := ⟨ofString "Alice", ofString "alice@example.com"⟩

def sampleRecord (oid : Char) (parents : List Char) (message : String) : LogRecord :=
  ⟨[oid], parents.map fun parent => [parent], sampleSignature, sampleSignature, ofString message⟩

def letterRank (oid : Text) : Nat := (oid.head?.map Char.toNat).getD 0

/-- The branch with `d` and `e` was forked from `b`; another one, with `c`, was forked before. -/
def sampleHistory : List LogRecord := [
  sampleRecord 'g' ['f', 'c'] "Merge pull request #6", sampleRecord 'f' ['b', 'e'] "Merge pull request #5",
  sampleRecord 'e' ['d'] "Add", sampleRecord 'd' ['b'] "Add", sampleRecord 'c' ['a'] "Fix",
  sampleRecord 'b' ['a'] "Start", sampleRecord 'a' [] "Begin"]

theorem isListed_of_print {records : List LogRecord} {rank : Text → Nat} (printable : ∀ r ∈ records, r.IsPrintable)
    (distinct : (records.map LogRecord.oid).Nodup)
    (grows : ∀ r ∈ records, ∀ parent ∈ r.parents, rank parent < rank r.oid)
    (read : Commit.ofLog (LogRecord.print records) = .ok commits) : IsListed (parentsIn records) commits where
  acyclic oid h := (lt_of_isAncestor grows h).false
  distinct := by rwa [Commit.oid_of_ofLog_print printable read]
  known commit hcommit := by
    obtain ⟨r, hr, hoid, hparents⟩ := Commit.exists_of_mem_ofLog_print printable read hcommit
    rw [hoid, hparents, parentsIn_of_mem distinct hr]

/-- The merge `f` is credited with `e` and `d`, and the branch of `c` does not go on from the mainline. -/
theorem attributeMerges_brought_sample : ∃ commits merge, Commit.ofLog (LogRecord.print sampleHistory) = .ok commits ∧
    IsListed (parentsIn sampleHistory) commits ∧ merge ∈ attributeMerges commits 100 ∧ merge.parents = [['b'], ['e']] ∧
      IsUnforked (parentsIn sampleHistory) commits ['b'] ['e'] ∧ merge.brought = [['e'], ['d']] ∧
        ∀ oid ∈ merge.brought, IsBrought (parentsIn sampleHistory) ['e'] oid := by
  have readable : ∀ r ∈ sampleHistory, r.IsPrintable ∧ r.IsNumbered := by decide
  have printable : ∀ r ∈ sampleHistory, r.IsPrintable := fun r hr => (readable r hr).1
  have grows : ∀ r ∈ sampleHistory, ∀ parent ∈ r.parents, letterRank parent < letterRank r.oid := by decide
  obtain ⟨commits, read, -⟩ := Commit.exists_ofLog_print readable
  have listed := isListed_of_print printable (by decide) grows read
  have merged : ∃ merge ∈ attributeMerges commits 100, merge.parents = [['b'], ['e']] ∧ merge.brought = [['e'], ['d']] := by
    have told : (Commit.ofLog (LogRecord.print sampleHistory)).toOption.map (fun commits => (attributeMerges commits 100).any
        fun merge => merge.parents = [['b'], ['e']] ∧ merge.brought = [['e'], ['d']]) = some true := by decide
    rw [read] at told
    simpa using List.any_eq_true.mp (Option.some.inj told)
  obtain ⟨merge, hmerge, hparents, hbrought⟩ := merged
  have unforked : IsUnforked (parentsIn sampleHistory) commits ['b'] ['e'] := by
    intro commit hcommit oid hone _ onWay
    obtain ⟨r, hr, hoid, hsame⟩ := Commit.exists_of_mem_ofLog_print printable read hcommit
    have passed : letterRank ['b'] ≤ letterRank oid := by
      rcases onWay with rfl | ⟨after, -⟩
      · exact le_rfl
      · exact (lt_of_isAncestor grows after).le
    rw [hone] at hsame
    have own : ∀ r ∈ sampleHistory, ∀ oid ∈ r.parents, letterRank ['b'] ≤ letterRank oid → r.parents = [oid] →
        r.oid = ['d'] ∨ r.oid = ['e'] := by decide
    rw [hoid]
    rcases own r hr oid (hsame ▸ List.mem_singleton_self oid) passed hsame.symm with hr | hr
    · exact hr ▸ Or.inr (.single (by decide))
    · exact Or.inl hr
  exact ⟨commits, merge, read, listed, hmerge, hparents, unforked, hbrought,
    (attributeMerges_brought read listed 100 merge hmerge _ _ hparents unforked).1⟩

/-- The branch with `c` was forked from `a`; after that another one, with `d`, was forked from `b`. -/
def forkedHistory : List LogRecord := [
  sampleRecord 'f' ['e', 'd'] "Merge branch topic", sampleRecord 'e' ['b', 'c'] "Merge pull request #7",
  sampleRecord 'd' ['b'] "Add", sampleRecord 'c' ['a'] "Fix", sampleRecord 'b' ['a'] "Start", sampleRecord 'a' [] "Begin"]

/-- The merge `e` of the branch with `c` is credited with `d`, which comes from another branch. -/
theorem attributeMerges_forked : ∃ commits merge, Commit.ofLog (LogRecord.print forkedHistory) = .ok commits ∧
    IsListed (parentsIn forkedHistory) commits ∧ merge ∈ attributeMerges commits 100 ∧ merge.parents = [['b'], ['c']] ∧
      merge.request = some 7 ∧ ['d'] ∈ merge.brought ∧ ¬IsBrought (parentsIn forkedHistory) ['c'] ['d'] := by
  have readable : ∀ r ∈ forkedHistory, r.IsPrintable ∧ r.IsNumbered := by decide
  have printable : ∀ r ∈ forkedHistory, r.IsPrintable := fun r hr => (readable r hr).1
  have grows : ∀ r ∈ forkedHistory, ∀ parent ∈ r.parents, letterRank parent < letterRank r.oid := by decide
  obtain ⟨commits, read, -⟩ := Commit.exists_ofLog_print readable
  have merged : ∃ merge ∈ attributeMerges commits 100,
      merge.parents = [['b'], ['c']] ∧ merge.request = some 7 ∧ ['d'] ∈ merge.brought := by
    have told : (Commit.ofLog (LogRecord.print forkedHistory)).toOption.map (fun commits => (attributeMerges commits 100).any
        fun merge => merge.parents = [['b'], ['c']] ∧ merge.request = some 7 ∧ ['d'] ∈ merge.brought) = some true := by decide
    rw [read] at told
    simpa using List.any_eq_true.mp (Option.some.inj told)
  obtain ⟨merge, hmerge, hparents, hrequest, hbrought⟩ := merged
  refine ⟨commits, merge, read, isListed_of_print printable (by decide) grows read, hmerge, hparents, hrequest, hbrought, ?_⟩
  rintro (same | before)
  · exact absurd same (by decide)
  · exact absurd (lt_of_isAncestor grows before) (by decide)

end

end Changelog.History
