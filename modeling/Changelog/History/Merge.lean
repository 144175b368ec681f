import Changelog.History.Commit

/-! # What a merge brought in

A pull request merge with two parents is credited with the commits between them: from the first parent the
walk goes to a listed child again and again, until it reaches the second parent. The walk takes a commit for
the child of another only if it has no other parent, and of several such commits the last one in the list.
-/

namespace Changelog.History

/-- The last listed commit whose only parent is `oid`, with its place in the list. -/
def childOf? (commits : List Commit) (oid : Text) : Option (Nat × Commit) :=
  (commits.zipIdx.reverse.find? fun (commit, _) => commit.parents = [oid]).map fun (commit, place) => (place, commit)

/-- The places of the commits on the walk from `position` to `tip`, at most `limit` of them. -/
def chain (commits : List Commit) (tip : Text) : (limit : Nat) → (position : Text) → List Nat
  | 0, _ => []
  | limit + 1, position =>
    if position = tip then []
    else
      match childOf? commits position with
      | none => []
      | some (place, child) => place :: chain commits tip limit child.oid

/-- A merge with its place in the list, its pull request, and the places of the commits it is credited with,
    in the order of the walk. -/
structure Credit where
  place : Nat
  request : Nat
  chain : List Nat
  deriving Repr, DecidableEq

/-- The credit of a commit, if it is a pull request merge with two parents. -/
def credit? (commits : List Commit) (limit : Nat) : Commit × Nat → Option Credit
  | ({ parents := [mainline, tip], request := some request, .. }, place) =>
    some { place, request, chain := chain commits tip limit mainline }
  | _ => none

def credits (commits : List Commit) (limit : Nat) : List Credit := commits.zipIdx.filterMap (credit? commits limit)

/-- The last credit whose chain holds a place. -/
def creditOf? (credits : List Credit) (place : Nat) : Option Credit :=
  credits.reverse.find? fun credit => place ∈ credit.chain

/-- A listed commit with its credits: a merge is told what it brought in, latest first, and a commit by which
    merge it came in, the last one if there are several. -/
def credited (commits : List Commit) (credits : List Credit) : Commit × Nat → Commit
  | (commit, place) =>
    let brought := (credits.find? fun credit => credit.place = place).map fun credit =>
      credit.chain.reverse.filterMap fun i => commits[i]?.map Commit.oid
    let commit := { commit with brought := brought.getD commit.brought }
    match creditOf? credits place with
    | none => commit
    | some credit =>
      { commit with
        request := some credit.request
        merger := commits[credit.place]?.map fun merge => { oid := merge.oid, author := merge.author } }

def attributeMerges (commits : List Commit) (limit : Nat) : List Commit :=
  commits.zipIdx.map (credited commits (credits commits limit))

end Changelog.History
