import Changelog.Proofs.History.Range

/-! # The exclusive upper end of a range

An exclusive upper end is left out of what git lists, and then an inclusive lower end is put behind. So the upper end is not
among the commits, unless it is the lower end too.
-/

namespace Changelog.History

/-- Does git print the history between two commits? It lists what can be reached from the upper end and not from the lower
    one, as much of it as is asked for, and it shows the lower end by itself, without a separator in what it separates. -/
structure IsPrinted (git : Git) (directory : Text) (parents : Parentage) (upper : Text) (lower : Option Text) : Prop where
  lists : ∀ count : Nat, ∃ (records : List LogRecord) (errors : Text),
    git { directory, arguments := logArguments count upper lower } =
      .finished 0 (LogRecord.print (records.take count)) errors ∧
    ∀ oid, oid ∈ records.map LogRecord.oid ↔ IsBrought parents upper oid ∧ ∀ start ∈ lower, ¬IsBrought parents start oid
  shows : ∀ start ∈ lower, ∃ (r : LogRecord) (errors : Text),
    git { directory, arguments := logArguments 1 start none } = .finished 0 (LogRecord.print [r]) errors ∧
    r.IsPrintable ∧ r.oid = start

variable {git : Git} {directory upper start : Text} {parents : Parentage} {lower gt gte lt lte : Option Text}
  {range : Range} {records : List LogRecord} {limit count : Int} {found kept : List Commit}

theorem oid_of_readLog {errors : Text} (h : (readLog git directory count upper lower).outcome = .ok found)
    (hgit : git { directory, arguments := logArguments count upper lower } = .finished 0 (LogRecord.print records) errors)
    (printable : ∀ r ∈ records, r.IsPrintable) : found.map Commit.oid = records.map LogRecord.oid := by
  unfold readLog at h
  cases long : Version.isLong count.natAbs with
  | true =>
      rw [if_pos long] at h
      contradiction
  | false =>
      rw [if_neg (by simp [long]), Action.outcome_bind (Git.outcome_run hgit)] at h
      exact Commit.oid_of_ofLog_print printable h

theorem IsPrinted.readLog_eq_nil (h : IsPrinted git directory parents upper (some upper)) (room : 0 ≤ count)
    (read : (readLog git directory count upper (some upper)).outcome = .ok found) : found = [] := by
  obtain ⟨n, rfl⟩ := Int.eq_ofNat_of_zero_le room
  obtain ⟨records, errors, hgit, reached⟩ := h.lists n
  have empty : records = [] := by
    refine List.eq_nil_iff_forall_not_mem.mpr fun r hr => ?_
    obtain ⟨after, before⟩ := (reached r.oid).mp (List.mem_map_of_mem hr)
    exact before upper rfl after
  rw [empty, List.take_nil] at hgit
  exact List.map_eq_nil_iff.mp (oid_of_readLog read hgit (List.forall_mem_nil _))

theorem IsPrinted.oid_of_readLog (h : IsPrinted git directory parents upper (some start))
    (read : (readLog git directory 1 start none).outcome = .ok found) : found.map Commit.oid = [start] := by
  obtain ⟨r, errors, hgit, printable, rfl⟩ := h.shows start rfl
  exact History.oid_of_readLog read hgit (List.forall_mem_singleton.mpr printable)

/-! ## The ends -/

theorem isSome_lower_of_resolveRange (h : (resolveRange git directory range).outcome = .ok (upper, lower)) :
    lower.isSome = range.lower.isSome := by
  unfold resolveRange at h
  cases hbound : range.lower with
  | none =>
      rw [hbound] at h
      obtain ⟨found, hfound, h⟩ := Action.outcome_bind_eq_ok.mp h
      obtain rfl := Except.ok.inj hfound
      obtain ⟨_, -, h⟩ := Action.outcome_bind_eq_ok.mp h
      obtain ⟨-, rfl⟩ := Prod.mk.inj (Except.ok.inj h)
      rfl
  | some bound =>
      rw [hbound] at h
      obtain ⟨found, hfound, h⟩ := Action.outcome_bind_eq_ok.mp h
      rw [← bind_pure_comp] at hfound
      obtain ⟨oid, -, hfound⟩ := Action.outcome_bind_eq_ok.mp hfound
      obtain rfl := Except.ok.inj hfound
      obtain ⟨_, -, h⟩ := Action.outcome_bind_eq_ok.mp h
      obtain ⟨-, rfl⟩ := Prod.mk.inj (Except.ok.inj h)
      rfl

theorem mem_takeLimit {α : Type} {a : α} {items : List α} (h : a ∈ takeLimit limit items) : a ∈ items := by
  unfold takeLimit at h
  split at h <;> exact List.mem_of_mem_take h

theorem oid_mem_takeLimit_append {last : List Commit} (without : upper ∉ kept.map Commit.oid)
    (h : upper ∈ (takeLimit limit (kept ++ last)).map Commit.oid) : upper ∈ last.map Commit.oid := by
  obtain ⟨commit, hcommit, rfl⟩ := List.mem_map.mp h
  rcases List.mem_append.mp (mem_takeLimit hcommit) with hkept | hlast
  · exact absurd (List.mem_map_of_mem hkept) without
  · exact List.mem_map_of_mem hlast

theorem not_mem_takeLimit (without : upper ∉ kept.map Commit.oid) : upper ∉ (takeLimit limit kept).map Commit.oid := by
  intro h
  rw [← List.append_nil kept] at h
  exact absurd (oid_mem_takeLimit_append without h) List.not_mem_nil

/-- What is put behind the kept commits is the lower end, if there is room. -/
theorem IsPrinted.mem_readLast_iff (printed : IsPrinted git directory parents upper (some start))
    (without : upper ∉ kept.map Commit.oid) (empty : start = upper → 0 < limit → kept = [])
    (read : (if (kept.length : Int) < limit then do
        let last ← readLog git directory 1 start none
        return takeLimit limit (kept ++ last)
      else return takeLimit limit kept : Action (List Commit)).outcome = .ok found) :
    upper ∈ found.map Commit.oid ↔ start = upper ∧ 0 < limit := by
  split at read
  next room =>
    obtain ⟨last, hlast, read⟩ := Action.outcome_bind_eq_ok.mp read
    obtain rfl := Except.ok.inj read
    have same := printed.oid_of_readLog hlast
    constructor
    · intro h
      have h := oid_mem_takeLimit_append without h
      rw [same, List.mem_singleton] at h
      exact ⟨h.symm, by omega⟩
    · rintro ⟨rfl, positive⟩
      obtain ⟨n, rfl⟩ := Int.eq_succ_of_zero_lt positive
      have first : takeLimit ((n : Int) + 1) last = last.take (n + 1) := takeLimit_natCast (n + 1) last
      rw [empty rfl positive, List.nil_append, first, List.map_take, same]
      exact List.mem_cons_self
  next full =>
    obtain rfl := Except.ok.inj read
    refine iff_of_false (not_mem_takeLimit without) ?_
    rintro ⟨same, positive⟩
    rw [empty same positive] at full
    exact full positive

/-- The upper end is among what is read just if it is the inclusive lower end too, and there is room. -/
theorem IsPrinted.mem_readRange_iff (printed : IsPrinted git directory parents upper lower) (exclusive : lt.isSome)
    (ends : lower.isSome = (Range.ofRefs gt gte lt lte).lower.isSome)
    (read : (readRange git directory (Range.ofRefs gt gte lt lte) limit upper lower).outcome = .ok found) :
    upper ∈ found.map Commit.oid ↔ gt = none ∧ lower = some upper ∧ 0 < limit := by
  have exclusive : (Range.ofRefs gt gte lt lte).upper.inclusive = false := by
    rw [inclusive_upper_ofRefs, Option.isNone_eq_false_iff.mpr exclusive]
  unfold readRange at read
  rw [exclusive] at read
  obtain ⟨listed, hlisted, read⟩ := Action.outcome_bind_eq_ok.mp read
  simp only [Bool.false_eq_true, if_false] at hlisted read
  have without : upper ∉ (listed.filter fun commit => commit.oid != upper).map Commit.oid := by simp
  cases lower with
  | none =>
      obtain rfl := Except.ok.inj read
      simpa using not_mem_takeLimit without
  | some start =>
      obtain ⟨bound, hbound⟩ := Option.isSome_iff_exists.mp ends.symm
      rw [hbound] at read
      dsimp only at read
      rw [inclusive_lower_ofRefs hbound] at read
      cases gt with
      | some ref =>
          obtain rfl := Except.ok.inj read
          simpa using not_mem_takeLimit without
      | none =>
          simp only [Option.isNone_none, Bool.true_and, decide_eq_true_eq] at read
          rw [printed.mem_readLast_iff without ?_ read]
          · simp
          · rintro rfl positive
            rw [printed.readLog_eq_nil (by omega) hlisted, List.filter_nil]

/-- The exclusive upper end of a range is among its commits just if it is the inclusive lower end too, and any commits are
    asked for. -/
theorem upper_mem_commits_iff (printed : IsPrinted git directory parents upper lower) (exclusive : lt.isSome)
    (ends : (resolveRange git directory (Range.ofRefs gt gte lt lte)).outcome = .ok (upper, lower))
    (read : (commits git directory (Range.ofRefs gt gte lt lte) limit).outcome = .ok found) :
    upper ∈ found.map Commit.oid ↔ gt = none ∧ lower = some upper ∧ 0 < limit := by
  unfold commits at read
  rw [Action.outcome_bind ends] at read
  obtain ⟨listed, hlisted, read⟩ := Action.outcome_bind_eq_ok.mp read
  obtain ⟨_, -, read⟩ := Action.outcome_bind_eq_ok.mp read
  obtain rfl := Except.ok.inj read
  rw [oid_attributeMerges]
  exact printed.mem_readRange_iff exclusive (isSome_lower_of_resolveRange ends) hlisted

/-! ### One commit after another -/

section

theorem isPrinted_sampleGit {last : LogRecord} (printable : last.IsPrintable)
    (reached : ∀ oid, oid ∈ records.map LogRecord.oid ↔ IsBrought parents upper oid ∧ ¬IsBrought parents last.oid oid) :
    IsPrinted (sampleGit records last) directory parents upper (some last.oid) where
  lists n := ⟨records, [], sampleGit_log n, by simpa using reached⟩
  shows start hstart := by
    obtain rfl := Option.some.inj hstart
    exact ⟨last, [], rfl, printable, rfl⟩

def twoRecords : List LogRecord := [sampleRecord 'b' ['a'] "Add", sampleLast]

theorem not_isAncestor_first {oid : Text} : ¬IsAncestor (parentsIn twoRecords) oid ['a'] := by
  have first : parentsIn twoRecords ['a'] = [] := by decide
  intro h
  cases h with
  | single hstep => simp [first] at hstep
  | tail _ hstep => simp [first] at hstep

theorem isBrought_first_iff {oid : Text} : IsBrought (parentsIn twoRecords) ['a'] oid ↔ oid = ['a'] :=
  or_iff_left not_isAncestor_first

theorem isBrought_second_iff {oid : Text} : IsBrought (parentsIn twoRecords) ['b'] oid ↔ oid = ['b'] ∨ oid = ['a'] := by
  have second : parentsIn twoRecords ['b'] = [['a']] := by decide
  refine or_congr_right ⟨fun h => ?_, ?_⟩
  · cases h with
    | single hstep => simpa [second] using hstep
    | tail before hstep =>
        rw [second, List.mem_singleton] at hstep
        exact absurd (hstep ▸ before) not_isAncestor_first
  · rintro rfl
    exact .single (by simp [second])

theorem isPrinted_twoRecords :
    IsPrinted (sampleGit [sampleRecord 'b' ['a'] "Add"] sampleLast) [] (parentsIn twoRecords) ['b'] (some ['a']) := by
  have first : sampleLast.oid = ['a'] := rfl
  have second : (sampleRecord 'b' ['a'] "Add").oid = ['b'] := rfl
  refine isPrinted_sampleGit (by decide) fun oid => ?_
  rw [isBrought_second_iff, first, isBrought_first_iff, List.map_singleton, List.mem_singleton, second]
  constructor
  · rintro rfl
    exact ⟨.inl rfl, by decide⟩
  · rintro ⟨same, apart⟩
    exact same.resolve_right apart

theorem exists_of_oids {ε : Type} {read : Except ε (List Commit)} {oids : List Text}
    (h : read.map (List.map Commit.oid) = .ok oids) : ∃ found, read = .ok found ∧ found.map Commit.oid = oids := by
  cases read with
  | error cause => cases h
  | ok found => exact ⟨found, rfl, Except.ok.inj h⟩

/-- From the first commit on and before the second one there is the first one only. -/
theorem upper_mem_commits_iff_apart : ∃ found,
    (commits (sampleGit [sampleRecord 'b' ['a'] "Add"] sampleLast) [] (Range.ofRefs none (some ['a']) (some ['b']) none)
      defaultLimit).outcome = .ok found ∧ found.map Commit.oid = [['a']] ∧ ['b'] ∉ found.map Commit.oid := by
  have oids : (commits (sampleGit [sampleRecord 'b' ['a'] "Add"] sampleLast) []
      (Range.ofRefs none (some ['a']) (some ['b']) none) defaultLimit).outcome.map (List.map Commit.oid) = .ok [['a']] := by
    decide +kernel
  obtain ⟨found, read, oids⟩ := exists_of_oids oids
  have apart : ¬((none : Option Text) = none ∧ some ['a'] = some ['b'] ∧ 0 < defaultLimit) := by decide
  exact ⟨found, read, oids,
    (upper_mem_commits_iff isPrinted_twoRecords rfl (by decide +kernel) read).not.mpr apart⟩

/-- A commit is in the range from itself on and before itself. -/
theorem upper_mem_commits_same :
    IsPrinted (sampleGit [] sampleLast) [] (parentsIn [sampleLast]) ['a'] (some ['a']) ∧
    (resolveRange (sampleGit [] sampleLast) [] (Range.ofRefs none (some ['a']) (some ['a']) none)).outcome =
      .ok (['a'], some ['a']) ∧
    (commits (sampleGit [] sampleLast) [] (Range.ofRefs none (some ['a']) (some ['a']) none) defaultLimit).outcome.map
      (List.map Commit.oid) = .ok [['a']] := by
  refine ⟨isPrinted_sampleGit (by decide) (by simp [sampleLast, sampleRecord]), ?_, ?_⟩
  · decide +kernel
  · decide +kernel

end

end Changelog.History
