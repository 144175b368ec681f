import Changelog.Journal

/-! # Operations side by side

Operations are begun one after the other. One that waits for a thread lets the next one begin, and goes on when the
thread does. Threads get on in any order: whose turn it is, a schedule says.
-/

namespace Changelog

/-- A step of an operation: something it does, or that it fails. -/
inductive Step where
  | did (event : Event)
  | failed (fault : Fault)
  deriving Repr, DecidableEq

namespace Step

def event? : Step → Option Event
  | did event => some event
  | failed _ => none

def fault? : Step → Option Fault
  | did _ => none
  | failed fault => some fault

def isPause : Step → Bool
  | did .paused => true
  | _ => false

end Step

/-- The steps of what runs in threads, and of what waits to be begun, as the turns have it. An item that waits has
    steps up to its first pause and steps from then on. A turn is that of the thread with its number, or else of what
    is to be begun next. After the last turn, what runs comes to its end, and then one after the other does. -/
def interleave {α : Type} : (turns : List Nat) → (running : List (List α)) → (waiting : List (List α × List α)) → List α
  | [], running, waiting => running.flatten ++ waiting.flatMap fun item => item.1 ++ item.2
  | turn :: turns, running, waiting =>
    match running[turn]? with
    | some (step :: rest) => step :: interleave turns (running.set turn rest) waiting
    | some [] => interleave turns running waiting
    | none =>
      match waiting with
      | (step :: opening, rest) :: waiting => step :: interleave turns running ((opening, rest) :: waiting)
      | ([], rest) :: waiting => interleave turns (running ++ [rest]) waiting
      | [] => interleave turns running []

namespace Action

variable {α : Type}

def steps (x : Action α) : List Step :=
  x.events.map .did ++
    match x.outcome with
    | .ok _ => []
    | .error fault => [.failed fault]

/-- The steps before the first pause, and those from it on. -/
def parts (x : Action α) : List Step × List Step :=
  (x.steps.takeWhile fun step => !step.isPause, x.steps.dropWhile fun step => !step.isPause)

/-- Operations side by side. All of them come to their end; if some fail, what comes of it is the fault of the one
    that fails first. -/
def gather (schedule : List Nat) (xs : List (Action α)) : Action (List α) :=
  let steps := interleave schedule [] (xs.map parts)
  { outcome :=
      match steps.findSome? Step.fault? with
      | some fault => .error fault
      | none => xs.mapM Action.outcome
    events := steps.filterMap Step.event? }

end Action

end Changelog
