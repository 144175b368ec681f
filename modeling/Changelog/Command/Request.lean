import Changelog.Command.Arguments
import Changelog.Data.Number
import Changelog.Review.Run

/-! # Requests

What a command line asks for: which files to review, how, and how much of the log to show.
-/

namespace Changelog

open Text (ofString)

inductive RequestOption where
  | help | fix | add | directory | repository | version | submodules | limit | verbose
  deriving Repr, DecidableEq

structure Request where
  /-- The files to review; none stands for the changelog in the directory. -/
  paths : List Path := []
  options : Review.Options := {}
  /-- How often more log output was asked for. -/
  verbosity : Nat := 0
  deriving Repr, DecidableEq

namespace Request

def programName : Text := ofString "changelog-lint"

def table : List (OptionForm RequestOption) := [
  { meaning := .help, name := ofString "--help", shape := .flag (some 'h') },
  { meaning := .fix, name := ofString "--fix", shape := .flag none },
  { meaning := .add, name := ofString "--add", shape := .value },
  { meaning := .directory, name := ofString "--cwd", shape := .value },
  { meaning := .repository, name := ofString "--repository", shape := .value },
  { meaning := .version, name := ofString "--version", shape := .value },
  { meaning := .submodules, name := ofString "--submodules", shape := .flag none },
  { meaning := .limit, name := ofString "--limit", shape := .value },
  { meaning := .verbose, name := ofString "--verbose", shape := .flag (some 'v') }]

def modifyOptions (f : Review.Options → Review.Options) (r : Request) : Request := { r with options := f r.options }

/-- The request after one more option. An option that is given nothing takes back what was said before; only the limit
    stays as it is. -/
def withOption (r : Request) (option : RequestOption) (value : Option Text) :
    Except Arguments.Interruption Request :=
  match option with
  | .help => .error .help
  | .fix => .ok (r.modifyOptions ({ · with fix := true }))
  | .add => .ok (r.modifyOptions ({ · with add := value }))
  | .directory => .ok (r.modifyOptions ({ · with directory := value.map Path.ofText }))
  | .repository => .ok (r.modifyOptions ({ · with repository := value }))
  | .version => .ok (r.modifyOptions ({ · with version := value }))
  | .submodules => .ok (r.modifyOptions ({ · with submodules := true }))
  | .limit =>
    match value with
    | none => .ok r
    | some text =>
      match Number.int? text with
      | some limit => .ok (r.modifyOptions ({ · with commitLimit := limit }))
      | none => .error (.refused (.notInteger (ofString "--limit") text))
  | .verbose => .ok { r with verbosity := r.verbosity + 1 }

def withPath (r : Request) (path : Text) : Request := { r with paths := r.paths ++ [Path.ofText path] }

/-- What a command line asks for, with a limit of commits where it gives none. -/
def ofArguments (commitLimit : Int) (arguments : List Text) : Except Arguments.Interruption Request := do
  let items ← (Arguments.read table none arguments).mapError .refused
  Arguments.collect withOption withPath { options := { commitLimit } } [] items

end Request

end Changelog
