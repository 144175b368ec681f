import Changelog.Command.Console
import Changelog.Command.Request
import Changelog.Command.Settings

/-! # Runs

A run reviews the files of a request one after the other. It shows the diagnostics as output, and the log and what
was fixed on the side. The first file that cannot be worked on ends it.
-/

namespace Changelog

open Text (ofString)

inductive Exit where
  /-- Nothing was found. -/
  | clean
  /-- Something was found. -/
  | findings
  /-- The request could not be carried out. -/
  | refused
  deriving Repr, DecidableEq

def Exit.status : Exit → Nat
  | .clean => 0
  | .findings => 1
  | .refused => 2

/-- What a run showed and left behind. -/
structure Run where
  exit : Exit := .clean
  /-- What was shown as output. -/
  output : List Text := []
  /-- What was shown on the side. -/
  errors : List Text := []
  files : Files
  deriving Inhabited

/-- Is the fault one that the program tells the user about? -/
def Fault.isReported : Fault → Bool
  | .setup _ | .undecodable _ | .git _ => true
  | _ => false

namespace Run

def diagnosticLine (d : Diagnostic) : Text := d.text ++ ofString "  " ++ d.ruleId

def fixedLine (path : Path) : Text := path.text ++ ofString ": fixed"

def faultEvent (path : Path) (fault : Fault) : Event :=
  .log { level := .error, channel := .command, message := path.text ++ ofString ": " ++ fault.message }

/-- What is shown of the review of one file, followed by what is shown of the others. -/
def followedBy (console : Console) (path : Path) (events : List Event) (report : Review.Report) (rest : Run) : Run :=
  { rest with
    exit := if rest.exit = .clean && !report.diagnostics.isEmpty then .findings else rest.exit
    output := report.diagnostics.map diagnosticLine ++ rest.output
    errors := console.lines events ++ (if report.changed then [fixedLine path] else []) ++ rest.errors }

/-- Reviews files one after the other. Each review sees the files as the one before left them. -/
def ofPaths (console : Console) (env : Review.Environment) (options : Review.Options) : List Path → Action Run
  | [] => return { files := env.files }
  | path :: rest =>
    let review := Review.file env path options
    match review.outcome with
    | .ok (report, files) =>
      let others := ofPaths console { env with files } options rest
      { outcome := others.outcome.map (followedBy console path review.events report)
        events := review.events ++ others.events }
    | .error fault =>
      if fault.isReported then
        let events := review.events ++ [faultEvent path fault]
        { outcome := .ok { exit := .refused, errors := console.lines events, files := env.files }, events }
      else { outcome := .error fault, events := review.events }

/-- The level from which on the log is shown; `standard` names it where no more output is asked for. -/
def levelFor (standard : Text) : (verbosity : Nat) → LevelChoice
  | 0 => .named standard
  | 1 => .number Level.info.number
  | _ => .number Level.debug.number

/-- The paths of a request; the changelog in the directory if it names none. -/
def pathsOf (request : Request) : List Path :=
  if request.paths.isEmpty then [Path.ofText Review.fileName] else request.paths

/-- All places that a request may have to be looked up at: its files, and the manifests of their projects. -/
def places (env : Review.Environment) (request : Request) : List Path :=
  (pathsOf request).flatMap fun path =>
    env.directory.under path ::
      ((Review.projectDirectory env request.options path).toOption.map Manifest.candidates).getD []

def usageLine (cause : UsageFault) : Text := Request.programName ++ ofString ": error: " ++ cause.message

/-- The run that a command line asks for. -/
def ofArguments (settings : Settings) (env : Review.Environment) (arguments : List Text) : Action Run :=
  match Request.ofArguments settings.commitLimit arguments with
  | .error .help => return { files := env.files }
  | .error (.refused cause) => return { exit := .refused, errors := [usageLine cause], files := env.files }
  | .ok request => do
    let console ← Action.ofExcept (Console.configure (levelFor settings.level request.verbosity))
    ofPaths console env request.options (pathsOf request)

end Run

end Changelog
