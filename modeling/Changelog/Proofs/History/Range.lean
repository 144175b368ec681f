import Changelog.History.Range
import Changelog.Proofs.History.Merge
import Changelog.Proofs.Journal
import Mathlib.Data.List.Nodup
import Mathlib.Data.Option.Basic

/-! # The commits of a range

Git is asked for one commit more than is wanted where the upper end is then left out, and the lower end is put behind only
where there is room. What comes out is the beginning of the whole range, whatever the number of commits is.
-/

namespace Changelog

namespace Git

/-- Does git know a name as that of a commit? -/
def Resolves (git : Git) (directory ref oid : Text) : Prop :=
  ∃ output errors, git { directory, arguments := [Text.ofString "rev-parse", Text.ofString "--verify",
      Text.ofString "--quiet", refName ref ++ Text.ofString "^\x7bcommit\x7d"] } = .finished 0 output errors ∧
    Text.strip output = oid ∧ oid ≠ []

variable {git : Git} {directory : Text}

theorem outcome_run {arguments : List Text} {output errors : Text}
    (h : git { directory, arguments } = .finished 0 output errors) :
    (git.run directory arguments).outcome = .ok output := by
  unfold run
  rw [h]
  rfl

theorem Resolves.outcome {ref oid : Text} (h : git.Resolves directory ref oid) :
    (git.resolve directory ref).outcome = .ok oid := by
  obtain ⟨output, errors, hgit, rfl, hne⟩ := h
  unfold resolve
  have answered : (git.run directory [Text.ofString "rev-parse", Text.ofString "--verify", Text.ofString "--quiet",
      refName ref ++ Text.ofString "^\x7bcommit\x7d"]).attemptGit.outcome = .ok (.ok output) := by
    rw [Action.outcome_attemptGit, outcome_run hgit]
  rw [Action.outcome_bind answered]
  dsimp only
  rw [if_neg (by simpa using hne)]
  rfl

end Git

namespace History

/-! ## The beginning of a list -/

section

variable {α : Type}

theorem takeLimit_natCast (limit : Nat) (items : List α) : takeLimit limit items = items.take limit := by
  simp [takeLimit]

/-- What is put behind the beginning of a list can be put behind the whole list, if it is put there only where the list is
    at its end. -/
theorem take_append_of_isPrefix {kept whole : List α} {limit : Nat} (isPrefix : kept <+: whole)
    (ended : kept.length < limit → kept = whole) (last : List α) :
    (if kept.length < limit then (kept ++ last).take limit else kept.take limit) = (whole ++ last).take limit := by
  split
  next room => rw [ended room]
  next full =>
    obtain ⟨rest, rfl⟩ := isPrefix
    rw [List.append_assoc, List.take_append_of_le_length (Nat.not_lt.mp full)]

theorem eq_take_of_length_lt {items : List α} {limit : Nat} (h : (items.take limit).length < limit) :
    items.take limit = items := by
  rw [List.length_take] at h
  exact List.take_of_length_le (by omega)

theorem filter_take_eq_of_length_lt [BEq α] [LawfulBEq α] {items : List α} {limit : Nat} {item : α} (distinct : items.Nodup)
    (h : ((items.take (limit + 1)).filter (· != item)).length < limit) :
    (items.take (limit + 1)).filter (· != item) = items.filter (· != item) := by
  have length : (items.take (limit + 1)).length ≤ ((items.take (limit + 1)).filter (· != item)).length + 1 := by
    rw [← (distinct.sublist (List.take_sublist _ _)).erase_eq_filter, List.length_erase]
    split <;> omega
  rw [List.take_of_length_le]
  rw [List.length_take] at length
  omega

end

/-! ## What git knows -/

/-- What git says about a range: its upper end is the commit `upper`, its lower end the commit of the record `last`, if it
    has one, and what lies between them is listed in one order, as much of it as is asked for. -/
structure IsAnswered (git : Git) (directory : Text) (range : Range) (upper : Text) (last : Option LogRecord)
    (listed : List LogRecord) : Prop where
  resolvesUpper : git.Resolves directory range.upper.ref upper
  resolvesLower : Option.Rel (fun bound r => git.Resolves directory bound.ref r.oid) range.lower last
  lists : ∀ n : Nat, ∃ errors, git { directory, arguments := logArguments n upper (last.map LogRecord.oid) } =
    .finished 0 (LogRecord.print (listed.take n)) errors
  shows : ∀ r ∈ last, ∃ errors, git { directory, arguments := logArguments 1 r.oid none } =
    .finished 0 (LogRecord.print [r]) errors
  distinct : (listed.map LogRecord.oid).Nodup

/-- How many commits git is asked for. -/
def countFor (lt : Option Text) (limit : Nat) : Nat := if lt.isSome then limit + 1 else limit

/-- What is listed, without the upper end if that is exclusive. -/
def withoutUpper (lt : Option Text) (upper : Text) (listed : List Text) : List Text :=
  if lt.isSome then listed.filter (· != upper) else listed

/-- The whole of a range: what git lists without an exclusive upper end, and then the lower end if it is inclusive. -/
def whole (gt lt : Option Text) (listed : List Text) (upper : Text) (lower : Option Text) : List Text :=
  withoutUpper lt upper listed ++ if gt.isNone then lower.toList else []

variable {git : Git} {directory upper : Text} {lower gt gte lt lte : Option Text} {range : Range}
  {listed records : List LogRecord} {last : Option LogRecord} {limit count : Nat}

theorem outcome_readLog (short : Version.isLong count = false) (h : ∀ r ∈ records, r.IsPrintable ∧ r.IsNumbered)
    {errors : Text} (hgit : git { directory, arguments := logArguments count upper lower } =
      .finished 0 (LogRecord.print records) errors) :
    ∃ commits, (readLog git directory count upper lower).outcome = .ok commits ∧
      commits.map Commit.oid = records.map LogRecord.oid := by
  obtain ⟨commits, hcommits, same⟩ := Commit.exists_ofLog_print h
  refine ⟨commits, ?_, same⟩
  unfold readLog
  rw [if_neg (by simpa using short), Action.outcome_bind (Git.outcome_run hgit)]
  exact hcommits

theorem oid_attributeMerges (commits : List Commit) (limit : Nat) :
    (attributeMerges commits limit).map Commit.oid = commits.map Commit.oid := by
  have each : Commit.oid ∘ credited commits (credits commits limit) = Commit.oid ∘ Prod.fst := by
    funext ⟨commit, place⟩
    exact oid_credited
  rw [attributeMerges, List.map_map, each, ← List.map_map, List.zipIdx_map_fst]

/-- What is kept of the listed commits is the beginning of the whole, and all of it if there is room left. -/
theorem withoutUpper_take (lt : Option Text) (limit : Nat) (upper : Text) {listed : List Text} (distinct : listed.Nodup) :
    withoutUpper lt upper (listed.take (countFor lt limit)) <+: withoutUpper lt upper listed ∧
      ((withoutUpper lt upper (listed.take (countFor lt limit))).length < limit →
        withoutUpper lt upper (listed.take (countFor lt limit)) = withoutUpper lt upper listed) := by
  unfold withoutUpper countFor
  cases lt with
  | none => exact ⟨List.take_prefix limit listed, eq_take_of_length_lt⟩
  | some _ => exact ⟨(List.take_prefix (limit + 1) listed).filter _, filter_take_eq_of_length_lt distinct⟩

theorem inclusive_upper_ofRefs : (Range.ofRefs gt gte lt lte).upper.inclusive = lt.isNone := by
  unfold Range.ofRefs
  cases lt with
  | none => rcases lte with _ | (_ | _) <;> rfl
  | some ref => cases ref <;> rfl

theorem inclusive_lower_ofRefs {bound : Bound} (h : bound ∈ (Range.ofRefs gt gte lt lte).lower) :
    bound.inclusive = gt.isNone := by
  unfold Range.ofRefs at h
  cases gt with
  | none =>
      rcases gte with _ | (_ | _) <;> cases h
      rfl
  | some ref =>
      cases ref <;> cases h
      rfl

theorem IsAnswered.outcome_resolveRange (h : IsAnswered git directory range upper last listed) :
    (resolveRange git directory range).outcome = .ok (upper, last.map LogRecord.oid) := by
  unfold resolveRange
  have resolves := h.resolvesLower
  cases hbound : range.lower with
  | none =>
      rw [hbound] at resolves
      cases resolves
      exact Action.outcome_bind_eq_ok.mpr ⟨none, rfl, Action.outcome_bind_eq_ok.mpr ⟨upper, h.resolvesUpper.outcome, rfl⟩⟩
  | some bound =>
      rw [hbound] at resolves
      cases resolves with
      | @some _ r resolves =>
          have found : (some <$> git.resolve directory bound.ref).outcome = .ok (some r.oid) := by
            rw [← bind_pure_comp, Action.outcome_bind resolves.outcome]
            rfl
          exact Action.outcome_bind_eq_ok.mpr ⟨_, found, Action.outcome_bind_eq_ok.mpr ⟨upper, h.resolvesUpper.outcome, rfl⟩⟩

/-- Where there is room, the lower end is put behind what was kept. -/
theorem outcome_readLast {kept : List Commit} {r : LogRecord} {errors : Text} (hr : r.IsPrintable ∧ r.IsNumbered)
    (hgit : git { directory, arguments := logArguments 1 r.oid none } = .finished 0 (LogRecord.print [r]) errors)
    {whole : List Text} (ends : (if kept.length < limit then (kept.map Commit.oid ++ [r.oid]).take limit
      else (kept.map Commit.oid).take limit) = whole) :
    ∃ found, (if kept.length < limit then do
          let last ← readLog git directory 1 r.oid none
          return takeLimit limit (kept ++ last)
        else return takeLimit limit kept : Action (List Commit)).outcome = .ok found ∧ found.map Commit.oid = whole := by
  have short : Version.isLong 1 = false := by decide +kernel
  by_cases room : kept.length < limit
  · obtain ⟨last, hlast, same⟩ := outcome_readLog short (List.forall_mem_singleton.mpr hr) hgit
    rw [if_pos room] at ends ⊢
    refine ⟨_, Action.outcome_bind_eq_ok.mpr ⟨last, hlast, rfl⟩, ?_⟩
    rw [takeLimit_natCast, List.map_take, List.map_append, same]
    exact ends
  · rw [if_neg room] at ends ⊢
    refine ⟨_, rfl, ?_⟩
    rw [takeLimit_natCast, List.map_take]
    exact ends

theorem IsAnswered.exists_kept (h : IsAnswered git directory (Range.ofRefs gt gte lt lte) upper last listed)
    (readable : ∀ r ∈ listed ++ last.toList, r.IsPrintable ∧ r.IsNumbered)
    (short : Version.isLong (countFor lt limit) = false) :
    ∃ commits, (readLog git directory (if (Range.ofRefs gt gte lt lte).upper.inclusive then (limit : Int) else limit + 1) upper
        (last.map LogRecord.oid)).outcome = .ok commits ∧
      (if (Range.ofRefs gt gte lt lte).upper.inclusive then commits
        else commits.filter fun commit => commit.oid != upper).map Commit.oid =
          withoutUpper lt upper ((listed.map LogRecord.oid).take (countFor lt limit)) := by
  obtain ⟨_, hgit⟩ := h.lists (countFor lt limit)
  obtain ⟨commits, hcommits, same⟩ := outcome_readLog short
    (fun r hr => readable r (List.mem_append_left _ (List.mem_of_mem_take hr))) hgit
  have count : (if (Range.ofRefs gt gte lt lte).upper.inclusive then (limit : Int) else limit + 1) = countFor lt limit := by
    rw [inclusive_upper_ofRefs, countFor]
    cases lt <;> rfl
  refine ⟨commits, count ▸ hcommits, ?_⟩
  rw [inclusive_upper_ofRefs, withoutUpper, ← List.map_take, ← same, List.filter_map]
  cases lt <;> rfl

theorem IsAnswered.outcome_readRange (h : IsAnswered git directory (Range.ofRefs gt gte lt lte) upper last listed)
    (readable : ∀ r ∈ listed ++ last.toList, r.IsPrintable ∧ r.IsNumbered)
    (short : Version.isLong (countFor lt limit) = false) :
    ∃ found, (readRange git directory (Range.ofRefs gt gte lt lte) limit upper (last.map LogRecord.oid)).outcome = .ok found ∧
      found.map Commit.oid = (whole gt lt (listed.map LogRecord.oid) upper (last.map LogRecord.oid)).take limit := by
  obtain ⟨commits, hcommits, hkept⟩ := h.exists_kept readable short
  unfold readRange
  rw [Action.outcome_bind hcommits]
  dsimp only
  generalize (if (Range.ofRefs gt gte lt lte).upper.inclusive then commits
    else commits.filter fun commit => commit.oid != upper) = kept at hkept ⊢
  obtain ⟨isPrefix, ended⟩ := withoutUpper_take lt limit upper h.distinct
  rw [← hkept] at isPrefix ended
  have ends := take_append_of_isPrefix isPrefix ended
  rw [List.length_map] at ends
  have without : (kept.map Commit.oid).take limit =
      (withoutUpper lt upper (listed.map LogRecord.oid) ++ []).take limit := by
    rw [← ends, List.append_nil, ite_self]
  have resolves := h.resolvesLower
  cases hbound : (Range.ofRefs gt gte lt lte).lower with
  | none =>
      rw [hbound] at resolves
      cases resolves
      refine ⟨_, rfl, ?_⟩
      rw [takeLimit_natCast, List.map_take, without, whole]
      split <;> rfl
  | some bound =>
      rw [hbound] at resolves
      cases resolves with
      | @some _ r _ =>
          dsimp only [Option.map_some]
          rw [inclusive_lower_ofRefs hbound]
          cases gt with
          | some ref =>
              refine ⟨_, rfl, ?_⟩
              rw [takeLimit_natCast, List.map_take, without]
              rfl
          | none =>
              obtain ⟨_, hgit⟩ := h.shows r rfl
              simp only [Option.isNone_none, Bool.true_and, decide_eq_true_eq, Int.ofNat_lt]
              exact outcome_readLast (readable r (by simp)) hgit (ends [r.oid])

/-- The commits of a range are the first ones of the whole range, as many as are asked for. -/
theorem commits_of_isAnswered (h : IsAnswered git directory (Range.ofRefs gt gte lt lte) upper last listed)
    (readable : ∀ r ∈ listed ++ last.toList, r.IsPrintable ∧ r.IsNumbered)
    (short : Version.isLong (countFor lt limit) = false) :
    ∃ found, (commits git directory (Range.ofRefs gt gte lt lte) limit).outcome = .ok found ∧
      found.map Commit.oid = (whole gt lt (listed.map LogRecord.oid) upper (last.map LogRecord.oid)).take limit := by
  obtain ⟨read, hread, same⟩ := h.outcome_readRange readable short
  refine ⟨attributeMerges read limit, ?_, by rw [oid_attributeMerges, same]⟩
  unfold commits
  rw [Action.outcome_bind h.outcome_resolveRange]
  dsimp only
  unfold readResolved
  rw [Action.outcome_bind hread]
  rfl

/-! ### A git with one range -/

section

open Text (ofString)

/-- A git that knows commits with names of one letter, one list of commits, and the record of one more. -/
def sampleGit (listed : List LogRecord) (last : LogRecord) : Git
  | { arguments := [subcommand, _, _, name], .. } =>
    .finished 0 (if subcommand = ofString "rev-parse" then name.take 1 else LogRecord.print [last]) []
  | { arguments := [_, _, count, _, _], .. } =>
    .finished 0 (LogRecord.print (listed.take (Nat.ofDigitChars 10 (count.drop 12) 0))) []
  | _ => .notStarted []

def sampleRange : Range := Range.ofRefs none (some ['a']) (some ['e']) none

theorem sampleGit_log {listed : List LogRecord} {last : LogRecord} {start : Text} (n : Nat) :
    sampleGit listed last { directory, arguments := logArguments n upper (some start) } =
      .finished 0 (LogRecord.print (listed.take n)) [] := by
  refine congrArg (fun n => GitAnswer.finished 0 (LogRecord.print (listed.take n)) []) ?_
  have count : (ofString "--max-count=" ++ Text.ofInt n).drop 12 = Nat.toDigits 10 n := rfl
  rw [count, Nat.ofDigitChars_toDigits (by decide) (by decide)]

theorem isAnswered_sampleGit {listed : List LogRecord} {last : LogRecord} (hlast : last.oid = ['a'])
    (distinct : (listed.map LogRecord.oid).Nodup) :
    IsAnswered (sampleGit listed last) [] sampleRange ['e'] last listed where
  resolvesUpper := ⟨['e'], [], rfl, rfl, List.cons_ne_nil _ _⟩
  resolvesLower := .some ⟨['a'], [], rfl, hlast.symm, hlast ▸ List.cons_ne_nil _ _⟩
  lists n := ⟨[], sampleGit_log n⟩
  shows r hr := by
    obtain rfl := Option.some.inj hr
    exact ⟨[], rfl⟩
  distinct := distinct

def sampleListed : List LogRecord := [
  sampleRecord 'e' ['d'] "Release", sampleRecord 'd' ['b'] "Add", sampleRecord 'b' ['a'] "Fix"]

def sampleLast : LogRecord := sampleRecord 'a' [] "Start"

/-- One commit more than is wanted is listed, the upper end is left out, and there is room for the lower end. -/
theorem commits_of_isAnswered_sample : ∃ found,
    (commits (sampleGit sampleListed sampleLast) [] sampleRange (3 : Nat)).outcome = .ok found ∧
      found.map Commit.oid = [['d'], ['b'], ['a']] :=
  commits_of_isAnswered (isAnswered_sampleGit rfl (by decide)) (by decide) (by decide +kernel)

/-- A record whose message holds a separator. -/
def brokenRecord : LogRecord :=
  { sampleRecord 'd' ['a'] "" with message := ofString "Add" ++ LogRecord.recordSeparator :: ofString "Fix" }

/-- The record of a merge whose title names a pull request with too many digits. -/
def longRecord : LogRecord :=
  { sampleRecord 'd' ['a', 'b'] "" with message := ofString "Merge pull request #" ++ List.replicate 4301 '1' }

/-- A log is not read if a message holds a separator or a number is too long, and none is asked for if the count is too
    long. -/
theorem commits_unreadable :
    (IsAnswered (sampleGit [brokenRecord] sampleLast) [] sampleRange ['e'] sampleLast [brokenRecord] ∧
      (commits (sampleGit [brokenRecord] sampleLast) [] sampleRange 1).outcome = .error .malformedRecord) ∧
    (IsAnswered (sampleGit [longRecord] sampleLast) [] sampleRange ['e'] sampleLast [longRecord] ∧
      (commits (sampleGit [longRecord] sampleLast) [] sampleRange 1).outcome = .error .numberTooLong) ∧
    (IsAnswered (sampleGit sampleListed sampleLast) [] sampleRange ['e'] sampleLast sampleListed ∧
      (commits (sampleGit sampleListed sampleLast) [] sampleRange (Nat.pow 10 4300 - 1 : Nat)).outcome = .error .numberTooLong) := by
  refine ⟨⟨isAnswered_sampleGit rfl (by decide), ?_⟩, ⟨isAnswered_sampleGit rfl (by decide), ?_⟩,
    ⟨isAnswered_sampleGit rfl (by decide), ?_⟩⟩
  · decide +kernel
  · decide +kernel
  · decide +kernel

end

end History

end Changelog
