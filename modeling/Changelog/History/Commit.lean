import Changelog.Text.Basic

/-! # Commits

A commit as it is read from the history, with what is known about the pull request that brought it in.
-/

namespace Changelog

structure Signature where
  name : Text
  email : Text
  deriving Repr, DecidableEq, Inhabited

/-- The merge that brought a commit in. -/
structure Merger where
  oid : Text
  author : Signature
  deriving Repr, DecidableEq, Inhabited

structure Commit where
  oid : Text
  /-- First line of the message. -/
  title : Text
  /-- The other lines of the message. -/
  description : Text := []
  author : Signature
  committer : Signature
  parents : List Text := []
  /-- Number of the pull request. -/
  request : Option Nat := none
  /-- Name of the submodule that the commit belongs to. -/
  submodule : Option Text := none
  isMerge : Bool := false
  merger : Option Merger := none
  /-- The commits that a merge brought in, latest first. -/
  brought : List Text := []
  deriving Repr, DecidableEq, Inhabited

/-- The first characters of the object name, enough to tell commits apart. -/
def Commit.shortOid (commit : Commit) : Text := commit.oid.take 7

end Changelog
