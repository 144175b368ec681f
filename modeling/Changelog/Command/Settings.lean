import Changelog.Data.Number
import Changelog.Data.Shortest
import Changelog.History.Git
import Changelog.Review.Context

/-! # Settings

What can be set for all runs by variables of the environment.
-/

namespace Changelog

open Text (ofString)

structure Settings where
  /-- How many commits are fetched for an empty release. -/
  commitLimit : Int := Review.defaultCommitLimit
  /-- The program that is called for git. -/
  git : Text := Git.program
  /-- How many seconds one call of git may take. -/
  timeAllowed : Double := Double.ofDecimal (.finite false 30 0)
  /-- The name of the level from which on the log is shown. -/
  level : Text := ofString "WARNING"
  deriving Repr, DecidableEq

namespace Settings

def commitLimitVariable : Text := ofString "CHANGELOG_LINT_COMMIT_LIMIT"

def gitVariable : Text := ofString "CHANGELOG_LINT_GIT_BINARY"

def timeAllowedVariable : Text := ofString "CHANGELOG_LINT_GIT_TIMEOUT_S"

def levelVariable : Text := ofString "CHANGELOG_LINT_LOG_LEVEL"

def variableNames : List Text := [commitLimitVariable, gitVariable, timeAllowedVariable, levelVariable]

/-- The value that a variable is read as, or the stand-in if it is not set. -/
def valueOr {α : Type} (standIn : α) (read : Text → Option α) : Option Text → Except Fault α
  | none => .ok standIn
  | some text =>
    match read text with
    | some value => .ok value
    | none => .error .notNumber

def ofVariables (valueOf? : Text → Option Text) : Except Fault Settings := do
  let standard : Settings := {}
  let commitLimit ← valueOr standard.commitLimit Number.int? (valueOf? commitLimitVariable)
  let timeAllowed ← valueOr standard.timeAllowed (fun text => Double.ofDecimal <$> Number.decimal? text)
    (valueOf? timeAllowedVariable)
  return {
    commitLimit, timeAllowed
    git := (valueOf? gitVariable).getD standard.git
    level := (valueOf? levelVariable).getD standard.level }

end Settings

end Changelog
