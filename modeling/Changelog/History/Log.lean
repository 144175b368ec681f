import Changelog.Fault
import Changelog.History.Commit
import Changelog.Text.Letter
import Changelog.Text.Blank

/-! # The commit log

Git prints one record per commit. The fields of a record end with the unit separator, the record itself with
the record separator; neither occurs in what they separate, except that a message may hold the former.
-/

namespace Changelog

structure LogRecord where
  oid : Text
  parents : List Text
  author : Signature
  committer : Signature
  message : Text
  deriving Repr, DecidableEq

namespace LogRecord

def unitSeparator : Char := Char.ofNat 0x1f

def recordSeparator : Char := Char.ofNat 0x1e

/-- The format that makes git print records. -/
def format : Text := Text.ofString "%H%x1f%P%x1f%an%x1f%ae%x1f%cn%x1f%ce%x1f%B%x1e"

def fields (r : LogRecord) : List Text :=
  [r.oid, Text.join [' '] r.parents, r.author.name, r.author.email, r.committer.name, r.committer.email, r.message]

def text (r : LogRecord) : Text := Text.join [unitSeparator] r.fields ++ [recordSeparator]

/-- Splits a text at the first `n` unit separators. -/
def splitFields : (n : Nat) → Text → List Text
  | 0, text => [text]
  | n + 1, text =>
    match Text.cutAt unitSeparator text with
    | none => [text]
    | some (field, rest) => field :: splitFields n rest

def ofText (text : Text) : Except Fault LogRecord :=
  match splitFields 6 text with
  | [oid, parents, authorName, authorEmail, committerName, committerEmail, message] =>
    .ok { oid, parents := Text.words parents, author := ⟨authorName, authorEmail⟩,
          committer := ⟨committerName, committerEmail⟩, message }
  | _ => .error .malformedRecord

/-- The texts of the records in a log, without line feeds around them. -/
def texts (log : Text) : List Text :=
  let trim := fun record => Text.dropTailWhile (· == '\n') (record.dropWhile (· == '\n'))
  ((log.splitOn recordSeparator).map trim).filter (!·.isEmpty)

end LogRecord

/-- The digits after the words that start the message of a pull request merge. -/
def requestDigits? (message : Text) : Option Text := do
  let after ← Text.dropLeadFolded? (Text.ofString "merge pull request #") message
  let digits := after.takeWhile isDecimalDigit
  if digits.isEmpty then none else some digits

def requestNumber (message : Text) : Except Fault (Option Nat) :=
  match requestDigits? message with
  | none => .ok none
  | some digits =>
    if maxNumberDigits < digits.length then .error .numberTooLong else .ok (some (Text.digitsValue digits))

namespace Commit

/-- The first line of a message and the rest of it, without white space around them. -/
def splitMessage (message : Text) : Text × Text :=
  match (Text.strip message).splitOn '\n' with
  | [] => ([], [])
  | first :: rest => (Text.strip first, Text.strip (Text.join ['\n'] rest))

/-- The commit of a record. More than one parent makes it a merge, which may be of a pull request. -/
def ofRecord (r : LogRecord) : Except Fault Commit := do
  let (title, description) := splitMessage r.message
  let isMerge := decide (1 < r.parents.length)
  let request ← if isMerge then requestNumber title else pure none
  return { oid := r.oid, title, description, author := r.author, committer := r.committer, parents := r.parents
           request, isMerge }

def ofLog (log : Text) : Except Fault (List Commit) :=
  (LogRecord.texts log).mapM fun text => do ofRecord (← LogRecord.ofText text)

end Commit

end Changelog
