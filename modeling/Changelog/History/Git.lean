import Changelog.Journal
import Changelog.Text.Line
import Changelog.Text.Lowercase

/-! # Asking git

Single questions to git: a plain call, the tags, the commit that a name stands for, and the address of a
remote.
-/

namespace Changelog

namespace Git

def program : Text := Text.ofString "git"

/-- The time allowed for one call, in seconds. -/
def timeAllowed : Text := Text.ofString "30.0"

/-- The output of a call, if git ran and was content. -/
def run (git : Git) (directory : Text) (arguments : List Text) : Action Text := do
  let command := program :: arguments
  let subcommand := arguments.headD []
  Action.log .debug .history
    (Text.ofString "Running " ++ Text.join [' '] command ++ Text.ofString " in " ++ directory)
  Action.emit (.git { directory, arguments })
  match git { directory, arguments } with
  | .notStarted reason => Action.fail (.git (.notStarted subcommand reason))
  | .timedOut => Action.fail (.git (.timedOut subcommand command timeAllowed))
  | .finished status output errors =>
    if status = 0 then return output
    else
      let reason := Text.strip errors
      if reason.isEmpty then Action.fail (.git (.exited subcommand status))
      else Action.fail (.git (.refused reason))

def tags (git : Git) (directory : Text) : Action (List Text) := do
  let output ← git.run directory [Text.ofString "tag"]
  return ((Text.lines output).map Text.strip).filter (!·.isEmpty)

/-- The name by which git knows a commit; the head is known in any case. -/
def refName (ref : Text) : Text :=
  if Text.lowercase ref = Text.ofString "head" then Text.ofString "HEAD" else ref

/-- The commit that a branch, a tag or an object name stands for. -/
def resolve (git : Git) (directory ref : Text) : Action Text := do
  let ref := refName ref
  let answer ← Action.attemptGit <| git.run directory
    [Text.ofString "rev-parse", Text.ofString "--verify", Text.ofString "--quiet",
      ref ++ Text.ofString "^\x7bcommit\x7d"]
  match answer with
  | .error _ => Action.fail (.git (.unresolved ref))
  | .ok output =>
    let oid := Text.strip output
    if oid.isEmpty then Action.fail (.git (.unresolved ref)) else return oid

def remoteUrl (git : Git) (directory remote : Text) : Action (Option Text) := do
  let answer ← Action.attemptGit <| git.run directory [Text.ofString "remote", Text.ofString "get-url", remote]
  match answer with
  | .ok output =>
    let url := Text.strip output
    return if url.isEmpty then none else some url
  | .error cause =>
    Action.log .debug .project
      (Text.ofString "No " ++ remote ++ Text.ofString " remote in " ++ directory ++ Text.ofString ": " ++ cause.message)
    return none

end Git

end Changelog
