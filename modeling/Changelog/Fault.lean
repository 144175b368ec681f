import Changelog.Text.Quoted

/-! # Faults

Why an operation did not finish. A fault is a cause; its wording is one function, so that nothing else
depends on a text.
-/

namespace Changelog

/-- Why git gave no usable answer. -/
inductive GitFault where
  /-- Git could not be started for a subcommand. -/
  | notStarted (subcommand reason : Text)
  /-- Git did not finish within the time allowed, in seconds. -/
  | timedOut (subcommand : Text) (command : List Text) (seconds : Text)
  /-- Git refused and said why. -/
  | refused (reason : Text)
  /-- Git refused with a status and no word. -/
  | exited (subcommand : Text) (status : Int)
  /-- A name stands for no commit. -/
  | unresolved (ref : Text)
  deriving Repr, DecidableEq

/-- Why a document or a project cannot be worked on at all. -/
inductive SetupFault where
  /-- There is no changelog at the path. -/
  | changelogMissing (path : Text)
  /-- The document is not a root node. -/
  | rootExpected
  /-- Neither options nor manifest nor remote give a repository. -/
  | repositoryMissing
  /-- Neither options nor manifest nor tags give a valid version. -/
  | versionMissing
  /-- The repository has no browsable address. -/
  | repositoryUnsupported (repository : Text)
  /-- The manifest could not be decoded; `reason` is not part of the contract. -/
  | manifestUnreadable (path reason : Text)
  deriving Repr, DecidableEq

inductive FileFault where
  | missing (path : Text)
  | isDirectory (path : Text)
  | notDirectory (path : Text)
  /-- A name in the path holds the character zero. -/
  | nullCharacter
  /-- The links on the way lead in a circle. -/
  | circular (path : Text)
  deriving Repr, DecidableEq

/-- Why an operation did not finish. -/
inductive Fault where
  | setup (cause : SetupFault)
  /-- A document is not UTF-8. -/
  | undecodable (path : Text)
  | git (cause : GitFault)
  | file (cause : FileFault)
  /-- A text is not a semantic version. -/
  | notSemantic (text : Text)
  /-- A word names no bump. -/
  | unknownBump (keyword : Text)
  /-- A number has more digits than are read or written. -/
  | numberTooLong
  /-- A text is not the number it should be. -/
  | notNumber
  /-- A commit record has the wrong number of fields. -/
  | malformedRecord
  /-- A value has no such part. -/
  | noSuchPart
  /-- A value is of the wrong kind. -/
  | wrongKind
  /-- There is no release or group at a place. -/
  | noSuchPlace
  deriving Repr, DecidableEq

open Text (ofString)

def GitFault.message : GitFault → Text
  | .notStarted subcommand reason => ofString "Failed to run git " ++ subcommand ++ ofString ": " ++ reason
  | .timedOut subcommand command seconds =>
    ofString "Failed to run git " ++ subcommand ++ ofString ": Command '" ++ Text.quotedList command ++
      ofString "' timed out after " ++ seconds ++ ofString " seconds"
  | .refused reason => reason
  | .exited subcommand status =>
    ofString "git " ++ subcommand ++ ofString " exited with status " ++ Text.ofInt status
  | .unresolved ref => ofString "Could not find " ++ ref ++ ofString "."

def SetupFault.message : SetupFault → Text
  | .changelogMissing path => ofString "Changelog not found: " ++ path
  | .rootExpected => ofString "Expected a root node"
  | .repositoryMissing => ofString "No repository url found in project manifest or options"
  | .versionMissing => ofString "No valid version found in project manifest or options"
  | .repositoryUnsupported repository => ofString "Unsupported repository url: " ++ repository
  | .manifestUnreadable path _ => ofString "Failed to read " ++ path

def FileFault.message : FileFault → Text
  | .missing path => ofString "No such file or directory: " ++ Text.quoted path
  | .isDirectory path => ofString "Is a directory: " ++ Text.quoted path
  | .notDirectory path => ofString "Not a directory: " ++ Text.quoted path
  | .nullCharacter => ofString "embedded null byte"
  | .circular path => ofString "Symlink loop from " ++ Text.quoted path

def Fault.message : Fault → Text
  | .setup cause => cause.message
  | .undecodable path => ofString "Changelog is not valid UTF-8: " ++ path
  | .git cause => cause.message
  | .file cause => cause.message
  | .notSemantic text => text ++ ofString " is not valid SemVer string"
  | .unknownBump keyword => ofString "Unknown bump keyword: " ++ keyword
  | .numberTooLong => ofString "A number has too many digits"
  | .notNumber => ofString "A number is expected"
  | .malformedRecord => ofString "A commit record has the wrong number of fields"
  | .noSuchPart => ofString "A value has no such part"
  | .wrongKind => ofString "A value is of the wrong kind"
  | .noSuchPlace => ofString "There is no release or group at this place"

end Changelog
