import Changelog.Proofs.History.Log
import Changelog.Proofs.Version.Reading

/-! # The log in its format

Git writes a record by putting its parts in place of the placeholders of a format. A log that is written in the format of
this library is read as one commit for each record, and the commit says what the record says.
-/

namespace Changelog

namespace LogRecord

/-- The placeholders of a format, each with what it stands for in a record. -/
def placeholders (r : LogRecord) : List (Text × Text) := [
  (['%', 'H'], r.oid), (['%', 'P'], Text.join [' '] r.parents), (['%', 'a', 'n'], r.author.name),
  (['%', 'a', 'e'], r.author.email), (['%', 'c', 'n'], r.committer.name), (['%', 'c', 'e'], r.committer.email),
  (['%', 'B'], r.message), (['%', 'x', '1', 'f'], [Char.ofNat 0x1f]), (['%', 'x', '1', 'e'], [Char.ofNat 0x1e])]

/-- What git writes of a record for a format whose first `skip` characters belong to a placeholder that was already seen.
    What is no placeholder stands for itself. -/
def expandFrom (r : LogRecord) : (skip : Nat) → (format : Text) → Text
  | _, [] => []
  | skip + 1, _ :: rest => expandFrom r skip rest
  | 0, c :: rest =>
    match r.placeholders.find? fun placeholder => Text.startsWith (c :: rest) placeholder.1 with
    | some (mark, part) => part ++ expandFrom r (mark.length - 1) rest
    | none => c :: expandFrom r 0 rest

def expand (r : LogRecord) (format : Text) : Text := expandFrom r 0 format

variable {r : LogRecord}

/-- The log of some records, each in the format of this library and with a line feed behind it. -/
def logged (records : List LogRecord) : Text := records.flatMap fun r => r.expand format ++ ['\n']

theorem expandFrom_append (r : LogRecord) (seen rest : Text) :
    r.expandFrom seen.length (seen ++ rest) = r.expand rest := by
  induction seen with
  | nil => rfl
  | cons c seen ih => exact ih

theorem expand_append {mark part : Text} (h : (mark, part) ∈ r.placeholders) (rest : Text) :
    r.expand (mark ++ rest) = part ++ r.expand rest := by
  -- no placeholder begins another one, so that the first one that fits is this one
  have found : r.placeholders.find? (fun placeholder => Text.startsWith (mark ++ rest) placeholder.1) = some (mark, part) := by
    revert h
    simp only [placeholders, List.mem_cons, List.not_mem_nil, or_false, Prod.mk.injEq]
    rintro (⟨rfl, rfl⟩ | ⟨rfl, rfl⟩ | ⟨rfl, rfl⟩ | ⟨rfl, rfl⟩ | ⟨rfl, rfl⟩ | ⟨rfl, rfl⟩ | ⟨rfl, rfl⟩ | ⟨rfl, rfl⟩ | ⟨rfl, rfl⟩) <;>
      rfl
  cases mark with
  | nil => simp [placeholders] at h
  | cons c seen =>
      rw [expand, List.cons_append, expandFrom, ← List.cons_append, found]
      exact congrArg (part ++ ·) (expandFrom_append r seen rest)

theorem expand_flatMap {parts : List (Text × Text)} (h : parts ⊆ r.placeholders) :
    r.expand (parts.flatMap (·.1)) = parts.flatMap (·.2) := by
  induction parts with
  | nil => rfl
  | cons part parts ih =>
      obtain ⟨hpart, hparts⟩ := List.cons_subset.mp h
      rw [List.flatMap_cons, List.flatMap_cons, expand_append hpart, ih hparts]

/-- The format of this library writes the fields of a record, each with its separator. -/
theorem expand_format (r : LogRecord) : r.expand format = r.text := by
  let parts := [0, 7, 1, 7, 2, 7, 3, 7, 4, 7, 5, 7, 6, 8].filterMap (r.placeholders[·]?)
  have known : parts ⊆ r.placeholders := fun part hpart => by
    obtain ⟨i, -, hi⟩ := List.mem_filterMap.mp hpart
    exact List.mem_of_getElem? hi
  have hformat : format = parts.flatMap (·.1) := by rfl
  have htext : parts.flatMap (·.2) = r.text := by
    rw [text_eq, join_fields]
    simp [parts, placeholders, unitSeparator, recordSeparator]
  rw [hformat, expand_flatMap known, htext]

theorem logged_eq_print (records : List LogRecord) : logged records = print records := by
  simp only [logged, print, expand_format]

end LogRecord

namespace Commit

variable {r : LogRecord} {records : List LogRecord} {commit : Commit}

theorem splitMessage_eq (message : Text) : splitMessage message =
    (Text.strip ((Text.strip message).takeWhile (· != '\n')), Text.strip ((Text.strip message).dropWhile (· != '\n'))) := by
  unfold splitMessage
  generalize Text.strip message = body
  have apart : '\n' ∉ body.takeWhile (· != '\n') := fun h => by simpa using List.mem_takeWhile_imp h
  have whole := List.takeWhile_append_dropWhile (p := (· != '\n')) (l := body)
  generalize body.takeWhile (· != '\n') = first at apart whole ⊢
  cases hrest : body.dropWhile (· != '\n') with
  | nil =>
      rw [hrest, List.append_nil] at whole
      rw [← whole, List.splitOn_eq_singleton apart]
      rfl
  | cons c rest =>
      obtain rfl : c = '\n' := by
        have stop := Text.eq_false_of_head?_dropWhile (congrArg List.head? hrest)
        simpa using stop
      rw [hrest] at whole
      rw [← whole, List.splitOn_append_cons_self_of_not_mem apart]
      show (Text.strip first, Text.strip (Text.join ['\n'] (rest.splitOn '\n'))) = _
      rw [Text.join_splitOn]
      rfl

/-- What a commit says if it is read from a record: the fields of the record, its message in two parts, and for a merge the
    number of the pull request that its title names. -/
structure IsOf (r : LogRecord) (commit : Commit) : Prop where
  oid : commit.oid = r.oid
  parents : commit.parents = r.parents
  author : commit.author = r.author
  committer : commit.committer = r.committer
  title : commit.title = Text.strip ((Text.strip r.message).takeWhile (· != '\n'))
  description : commit.description = Text.strip ((Text.strip r.message).dropWhile (· != '\n'))
  isMerge : commit.isMerge ↔ 1 < r.parents.length
  /-- Only a merge has the number of a pull request. -/
  isMerge_of_request : commit.request.isSome → commit.isMerge
  request : commit.isMerge → commit.request = (requestDigits? commit.title).map Text.digitsValue
  /-- Nothing is known yet of what brought the commit in and of what it brought in. -/
  alone : commit.merger = none ∧ commit.brought = [] ∧ commit.submodule = none

theorem requestNumber_eq {title : Text} {request : Option Nat} (h : requestNumber title = .ok request) :
    request = (requestDigits? title).map Text.digitsValue := by
  unfold requestNumber at h
  split at h
  next none =>
    rw [none]
    exact (Except.ok.inj h).symm
  next digits some =>
    split at h
    · contradiction
    · rw [some]
      exact (Except.ok.inj h).symm

theorem isOf_of_ofRecord (h : ofRecord r = .ok commit) : IsOf r commit := by
  unfold ofRecord at h
  rw [splitMessage_eq] at h
  dsimp only at h
  split at h
  next merge =>
    cases hrequest : requestNumber (Text.strip ((Text.strip r.message).takeWhile (· != '\n'))) with
    | error fault =>
        rw [hrequest] at h
        contradiction
    | ok request =>
        rw [hrequest] at h
        cases h
        exact ⟨rfl, rfl, rfl, rfl, rfl, rfl, by simp, fun _ => merge, fun _ => requestNumber_eq hrequest, rfl, rfl, rfl⟩
  next single =>
    cases h
    exact ⟨rfl, rfl, rfl, rfl, rfl, rfl, by simp, nofun, fun merge => absurd merge single, rfl, rfl, rfl⟩

/-- A log in the format of this library is read as the commits of its records, in their order. -/
theorem ofLog_logged (h : ∀ r ∈ records, r.IsPrintable ∧ r.IsNumbered) :
    ∃ commits, ofLog (LogRecord.logged records) = .ok commits ∧ List.Forall₂ IsOf records commits := by
  obtain ⟨commits, read, -⟩ := exists_ofLog_print h
  refine ⟨commits, LogRecord.logged_eq_print records ▸ read, ?_⟩
  exact ((ofLog_print fun r hr => (h r hr).1).mp read).imp fun _ _ => isOf_of_ofRecord

section

open Text (ofString)

/-- A merge whose message holds separators of fields and blank lines, and a record of which next to nothing is known. -/
def sparseLog : List LogRecord := [
  { oid := ofString "f1", parents := [ofString "e2", ofString "d3"], author := ⟨ofString "Alice", ofString "alice@example.com"⟩
    committer := ⟨ofString "Bob ", []⟩
    message := ofString "\n Merge pull request #42 from fork \n\nOne\x1ftwo\n\nthree\n\n" },
  { oid := ofString "e2", parents := [], author := ⟨[], []⟩, committer := ⟨[], []⟩, message := [] }]

theorem ofLog_logged_sparse : (∀ r ∈ sparseLog, r.IsPrintable ∧ r.IsNumbered) ∧
    ∃ commits, ofLog (LogRecord.logged sparseLog) = .ok commits ∧ List.Forall₂ IsOf sparseLog commits :=
  have readable : ∀ r ∈ sparseLog, r.IsPrintable ∧ r.IsNumbered := by decide
  ⟨readable, ofLog_logged readable⟩

end

end Commit

end Changelog
