import Changelog.Journal

/-! # The console

Log lines are shown from a level on. Before a console is set up, only what is at least a warning is shown, and
without level and name.
-/

namespace Changelog

open Text (ofString)

def Level.number : Level → Int
  | .debug => 10
  | .info => 20
  | .warning => 30
  | .error => 40

/-- How the level of a log line is asked for. -/
inductive LevelChoice where
  | named (name : Text)
  | number (value : Int)
  deriving Repr, DecidableEq

/-- What decides which log lines are shown. -/
structure Console where
  /-- The level of the program; zero if none is set. -/
  level : Int := 0
  /-- The level from which on lines are written out, once the console is set up. -/
  handler : Option Int := none
  deriving Repr, DecidableEq

namespace Console

def levelNames : List (Text × Int) :=
  [(ofString "CRITICAL", 50), (ofString "FATAL", 50), (ofString "ERROR", 40), (ofString "WARNING", 30),
    (ofString "WARN", 30), (ofString "INFO", 20), (ofString "DEBUG", 10), (ofString "NOTSET", 0)]

/-- The level that counts where none is set. -/
def standardLevel : Int := Level.warning.number

/-- The capitals of a letter: those of the basic letters, and those that the dotless i, the long s and the
    ligatures of s and t share with them. -/
def capitals (c : Char) : Text :=
  if 'a'.toNat ≤ c.toNat && c.toNat ≤ 'z'.toNat then [Char.ofNat (c.toNat - 32)]
  else if c.toNat == 0x131 then ['I']
  else if c.toNat == 0x17f then ['S']
  else if c.toNat == 0xfb05 || c.toNat == 0xfb06 then ['S', 'T']
  else [c]

/-- The level that is asked for. A name that means nothing stands for the standard level; two names mean a format
    and its styles, and those are no levels. -/
def levelOf : LevelChoice → Except Fault Int
  | .number value => .ok value
  | .named name =>
    let name := name.flatMap capitals
    if name = ofString "BASIC_FORMAT" then .error .notNumber
    else if name = ofString "_STYLES" then .error .wrongKind
    else .ok (((levelNames.find? fun item => item.1 = name).map (·.2)).getD standardLevel)

def configure (choice : LevelChoice) : Except Fault Console :=
  (levelOf choice).map fun level => { level, handler := some level }

/-- The name under which the program as a whole writes to the log. -/
def programName : Text := ofString "changelog_lint"

def qualified (name : Text) : Text :=
  if name.startsWith programName then name else programName ++ '.' :: name

def isOwn (name : Text) : Bool := decide (name = programName) || name.startsWith (programName ++ ['.'])

def levelText (level : Int) : Text :=
  match levelNames.find? fun item => item.2 = level with
  | some (name, _) => name
  | none => ofString "Level " ++ Text.ofInt level

def formatted (level : Int) (name message : Text) : Text :=
  levelText level ++ ofString " | " ++ name ++ ofString " | " ++ message

/-- What is shown of a log line of a level above zero. -/
def shown? (console : Console) (level : Int) (name message : Text) : Option Text :=
  let bare := if standardLevel ≤ level then some message else none
  if level ≤ 0 then none
  else if !isOwn name then bare
  else if level < (if console.level = 0 then standardLevel else console.level) then none
  else
    match console.handler with
    | none => bare
    | some least => if least ≤ level then some (formatted level name message) else none

def lines (console : Console) (events : List Event) : List Text :=
  (events.filterMap Event.line?).filterMap fun line =>
    console.shown? line.level.number line.channel.name line.message

end Console

end Changelog
