import Changelog.Command.Run
import Std.Time.Zoned

/-! # The program

Reviews the changelogs that its arguments name. Everything that a review may look at is read before, and what it
fixed is written back after it. Git is not started from here; every call of it is answered as if it could not be.
-/

namespace Changelog.Program

def text (s : String) : Text := s.toList

def string (t : Text) : String := String.ofList t

/-- A number with leading zeros. -/
def padded (width n : Nat) : String := String.ofList (List.replicate (width - (Text.ofNat n).length) '0' ++ Text.ofNat n)

def today : IO Text := do
  let date ← Std.Time.PlainDate.now
  return text (padded 4 date.year.toInt.toNat ++ "-" ++ padded 2 date.month.val.toNat ++ "-" ++ padded 2 date.day.val.toNat)

/-- What is at a place; nothing if it cannot be read. -/
def look (place : Path) : IO Files := do
  try
    let content ← IO.FS.readBinFile (string place.text)
    return Files.found place (.file content)
  catch error =>
    match error with
    | .inappropriateType .. => return [(place, .directory)]
    | _ => return []

def settings : IO (Except Fault Settings) := do
  let values ← Settings.variableNames.mapM fun name => return (name, (← IO.getEnv (string name)).map text)
  return Settings.ofVariables fun name => (values.find? fun item => item.1 = name).bind (·.2)

def environment (directory : Path) (files : Files) (today : Text) : Review.Environment :=
  { git := fun _ => .notStarted (text "git is not available"), files, directory, today }

/-- Runs a command line with the given settings; the result is the exit status. -/
def run (settings : Settings) (arguments : List Text) : IO UInt32 := do
  let directory := Path.ofText (text (← IO.currentDir).toString)
  let bare := environment directory [(directory, .directory)] (← today)
  let places := match Request.ofArguments settings.commitLimit arguments with
    | .ok request => Run.places bare request
    | .error _ => []
  let files := (← places.mapM look).flatten ++ bare.files
  match (Run.ofArguments settings { bare with files } arguments).outcome with
  | .error fault =>
    IO.eprintln (string fault.message)
    return 1
  | .ok result =>
    for (path, content) in Files.changes files result.files do
      IO.FS.writeBinFile (string path.text) content
    result.output.forM fun line => IO.println (string line)
    result.errors.forM fun line => IO.eprintln (string line)
    return result.exit.status.toUInt32

end Changelog.Program

/-- Reviews the changelogs that the arguments name. -/
def main (arguments : List String) : IO UInt32 := do
  match ← Changelog.Program.settings with
  | .error fault =>
    IO.eprintln (Changelog.Program.string fault.message)
    return 1
  | .ok settings => Changelog.Program.run settings (arguments.map Changelog.Program.text)
