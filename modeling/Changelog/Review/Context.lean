import Changelog.History.Git
import Changelog.Outline.Sorting
import Changelog.Project.Hosting
import Changelog.Project.Manifest
import Changelog.Version.Order

/-! # The context of a review

A review needs to know the tags, the address and the current version of the project. What the options leave open
is taken from the manifest, from git, or from the tags.
-/

namespace Changelog.Review

/-- The world around a review. -/
structure Environment where
  git : Git
  files : Files
  /-- The directory that relative paths are seen from. -/
  directory : Path
  /-- The date of today, year first. -/
  today : Text
  /-- Where the system says that a path leads when the links on its way are followed, or why it leads nowhere. -/
  resolve : Path → Except Fault Path := Path.resolve directory
  sorting : Sorting := .merging
  /-- The turns of what goes on side by side. -/
  schedule : List Nat := []

/-- How many commits are fetched for an empty release if nothing else is asked for. -/
def defaultCommitLimit : Int := 100

structure Options where
  /-- Is the document fixed, and not only reported on? -/
  fix : Bool := false
  /-- The project directory; the directory of the document if none is given. -/
  directory : Option Path := none
  repository : Option Text := none
  version : Option Text := none
  /-- A version or a bump of a release to add; only when the document is fixed. -/
  add : Option Text := none
  /-- Do commits of changed submodules count? -/
  submodules : Bool := false
  commitLimit : Int := defaultCommitLimit
  tags : Option (List Text) := none
  deriving Repr, DecidableEq

structure Project where
  tags : List Text
  /-- The browsable address. -/
  url : Text
  version : Text
  deriving Repr, DecidableEq

/-- The project directory of the document at a path. -/
def projectDirectory (env : Environment) (options : Options) (path : Option Path) : Except Fault Path :=
  env.resolve (options.directory.getD ((path.map Path.parent).getD env.directory))

open Text (ofString)

/-- The tags that are given or that git knows; none if git fails. -/
def findTags (env : Environment) (options : Options) (directory : Path) : Action (List Text) := do
  match options.tags with
  | some tags => return tags
  | none =>
    match ← Action.attemptGit (env.git.tags directory.text) with
    | .ok tags => return tags
    | .error cause =>
      Action.log .warning .review
        (ofString "Could not list tags in " ++ directory.text ++ ofString ": " ++ cause.message)
      return []

/-- A text that says something, as data. -/
def said (text : Option Text) : Option Data := (text.filter (!·.isEmpty)).map Data.text

/-- What a manifest says about one of its parts. -/
def declared (part : Manifest → Data) (manifest : Option Manifest) : Option Data :=
  (manifest.map part).filter Data.isTruthy

/-- The repository and the version from the options, or else from the manifest, or else from git and the tags.
    The manifest is looked for only if something is left open, and git is asked only if the manifest does not
    say it either. -/
def findDeclarations (env : Environment) (options : Options) (directory : Path) (tags : List Text) :
    Action (Option Data × Option Data) := do
  let manifest ←
    if (said options.repository).isSome && (said options.version).isSome then pure none
    else Manifest.load env.files directory
  let repository ← match said options.repository <|> declared Manifest.repository manifest with
    | some repository => pure (some repository)
    | none => (said ·) <$> env.git.remoteUrl directory.text (ofString "origin")
  let version ← match said options.version <|> declared Manifest.version manifest with
    | some version => pure (some version)
    | none => (said ·) <$> Action.ofExcept (Version.lastTagged tags)
  return (repository, version)

def Project.ofDeclarations (tags : List Text) : Option Data → Option Data → Except Fault Project
  | none, _ => .error (.setup .repositoryMissing)
  | some _, none => .error (.setup .versionMissing)
  | some repository, some (.text version) =>
    if !Version.isValid version then .error (.setup .versionMissing)
    else
      match repository with
      | .text repository =>
        match Hosting.url? repository with
        | some url => .ok { tags, url, version }
        | none => .error (.setup (.repositoryUnsupported repository))
      | _ => .error .noSuchPart
  | some _, some _ => .error .wrongKind

def findProject (env : Environment) (options : Options) (directory : Path) : Action Project := do
  let tags ← findTags env options directory
  let (repository, version) ← findDeclarations env options directory tags
  Action.ofExcept (Project.ofDeclarations tags repository version)

end Changelog.Review
