import Changelog.Diagnostic
import Changelog.Fault

/-! # What an operation does on the way

Operations ask git, write to the log and report diagnostics. Git is a function from calls to answers, and an
operation yields its outcome together with all that it did in its order, also when it fails.
-/

namespace Changelog

structure GitCall where
  directory : Text
  arguments : List Text
  deriving Repr, DecidableEq

inductive GitAnswer where
  /-- Git ran, with its exit status, its output and what it said besides. -/
  | finished (status : Int) (output errors : Text)
  /-- Git could not be started. -/
  | notStarted (reason : Text)
  /-- Git did not finish in time. -/
  | timedOut
  deriving Repr, DecidableEq

/-- A git that always answers the same call in the same way. -/
abbrev Git := GitCall → GitAnswer

inductive Level where
  | debug | info | warning | error
  deriving Repr, DecidableEq

/-- The part of the program that writes a log line. -/
inductive Channel where
  | history | project | review | command
  deriving Repr, DecidableEq

def Channel.name : Channel → Text
  | history => Text.ofString "changelog_lint.git_log"
  | project => Text.ofString "changelog_lint.repository"
  | review => Text.ofString "changelog_lint.linter"
  | command => Text.ofString "changelog_lint.cli"

structure LogLine where
  level : Level
  channel : Channel
  message : Text
  deriving Repr, DecidableEq

/-- Something that an operation does. -/
inductive Event where
  | git (call : GitCall)
  | log (line : LogLine)
  | found (diagnostic : Diagnostic)
  /-- It waits for a thread, which goes on with it. -/
  | paused
  deriving Repr, DecidableEq

namespace Event

def call? : Event → Option GitCall
  | git call => some call
  | _ => none

def diagnostic? : Event → Option Diagnostic
  | found diagnostic => some diagnostic
  | _ => none

/-- The log line of an event. A diagnostic is logged with its rule; a call of git logs nothing by itself. -/
def line? : Event → Option LogLine
  | git _ | paused => none
  | log line => some line
  | found diagnostic =>
    some {
      level := .debug, channel := .review
      message := diagnostic.text ++ Text.ofString " [" ++ diagnostic.ruleId ++ [']'] }

end Event

/-- What an operation came to, and what it did on the way. -/
structure Action (α : Type) where
  outcome : Except Fault α
  events : List Event := []

namespace Action

def calls {α : Type} (x : Action α) : List GitCall := x.events.filterMap Event.call?

def diagnostics {α : Type} (x : Action α) : List Diagnostic := x.events.filterMap Event.diagnostic?

/-- The second operation runs on the value of the first, if there is one. -/
protected def bind {α β : Type} (x : Action α) (f : α → Action β) : Action β :=
  match x.outcome with
  | .ok a => { outcome := (f a).outcome, events := x.events ++ (f a).events }
  | .error fault => { outcome := .error fault, events := x.events }

instance : Monad Action where
  pure a := { outcome := .ok a }
  bind := Action.bind

def emit (event : Event) : Action Unit := { outcome := .ok (), events := [event] }

def log (level : Level) (channel : Channel) (message : Text) : Action Unit :=
  emit (.log { level, channel, message })

def report (diagnostics : List Diagnostic) : Action Unit := { outcome := .ok (), events := diagnostics.map .found }

/-- An operation that is left to a thread. -/
def inThread {α : Type} (x : Action α) : Action α := { x with events := .paused :: x.events }

def fail {α : Type} (fault : Fault) : Action α := { outcome := .error fault }

/-- An operation that does nothing on the way. -/
def ofExcept {α : Type} (outcome : Except Fault α) : Action α := { outcome }

/-- The outcome of an operation as a value, unless it failed for another reason than git. -/
def attemptGit {α : Type} (x : Action α) : Action (Except GitFault α) :=
  match x.outcome with
  | .ok a => { outcome := .ok (.ok a), events := x.events }
  | .error (.git cause) => { outcome := .ok (.error cause), events := x.events }
  | .error fault => { outcome := .error fault, events := x.events }

@[simp] theorem pure_outcome {α : Type} (a : α) : (pure a : Action α).outcome = .ok a := rfl

@[simp] theorem pure_events {α : Type} (a : α) : (pure a : Action α).events = [] := rfl

theorem bind_def {α β : Type} (x : Action α) (f : α → Action β) : x >>= f = Action.bind x f := rfl

@[simp] theorem bind_outcome {α β : Type} (x : Action α) (f : α → Action β) :
    (x >>= f).outcome = x.outcome.bind fun a => (f a).outcome := by
  rw [bind_def, Action.bind]
  cases x.outcome <;> rfl

@[simp] theorem bind_events {α β : Type} (x : Action α) (f : α → Action β) :
    (x >>= f).events = x.events ++ (match x.outcome with
      | .ok a => (f a).events
      | .error _ => []) := by
  rw [bind_def, Action.bind]
  cases x.outcome <;> simp

instance : LawfulMonad Action := by
  refine LawfulMonad.mk' Action ?_ ?_ ?_
  · rintro α ⟨_ | a, events⟩ <;> simp [Functor.map, Action.bind]
  · intro α β a f
    simp [Bind.bind, Action.bind, pure]
  · rintro α β γ ⟨_ | a, events⟩ f g
    · rfl
    · cases h : f a with
      | mk outcome after => cases outcome <;> simp [Bind.bind, Action.bind, h]

end Action

end Changelog
