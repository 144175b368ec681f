import Changelog.Text.Letter
import Changelog.Text.Quoted

/-! # Arguments

The arguments of a command line are options and operands. Options have long names, which may be shortened as
long as they stay unambiguous, and flags may have a letter besides. Operands stand together; those that come
after an option and further operands are not accepted.
-/

namespace Changelog

open Text (ofString)

/-- What an option takes. -/
inductive OptionShape where
  /-- Nothing; it may have a letter. -/
  | flag (letter : Option Char)
  /-- One value. -/
  | value
  deriving Repr, DecidableEq

/-- An option of a program, with what it means there. -/
structure OptionForm (κ : Type) where
  meaning : κ
  /-- The long name, with both dashes. -/
  name : Text
  shape : OptionShape
  deriving Repr, DecidableEq

inductive UsageFault where
  /-- A shortened name fits several names. -/
  | ambiguous (given : Text) (names : List Text)
  /-- An option that takes a value has none. -/
  | valueMissing (option : Text)
  /-- A flag has a value. -/
  | valueIgnored (option value : Text)
  /-- A value is not the whole number that it should be. -/
  | notInteger (option value : Text)
  /-- Some arguments are neither options nor operands that are accepted. -/
  | unrecognized (arguments : List Text)
  deriving Repr, DecidableEq

def UsageFault.message : UsageFault → Text
  | .ambiguous given names =>
    ofString "ambiguous option: " ++ given ++ ofString " could match " ++ Text.join (ofString ", ") names
  | .valueMissing option => ofString "argument " ++ option ++ ofString ": expected one argument"
  | .valueIgnored option value =>
    ofString "argument " ++ option ++ ofString ": ignored explicit argument " ++ Text.quoted value
  | .notInteger option value =>
    ofString "argument " ++ option ++ ofString ": invalid int value: " ++ Text.quoted value
  | .unrecognized arguments => ofString "unrecognized arguments: " ++ Text.join [' '] arguments

namespace OptionForm

def letter? {κ : Type} (option : OptionForm κ) : Option Char :=
  match option.shape with
  | .flag letter => letter
  | .value => none

/-- All names of an option, that by its letter first. -/
def names {κ : Type} (option : OptionForm κ) : List Text :=
  option.letter?.toList.map (fun c => ['-', c]) ++ [option.name]

def shown {κ : Type} (option : OptionForm κ) : Text := Text.join ['/'] option.names

end OptionForm

namespace Arguments

/-! ## Single arguments -/

/-- What an argument is for itself. -/
inductive Word (κ : Type) where
  | operand (text : Text)
  /-- Two dashes; only operands follow. -/
  | divider
  /-- An option by its name, with what follows an equals sign. -/
  | named (option : OptionForm κ) (value : Option Text)
  /-- A flag by its letter, with what follows directly or after an equals sign: the letters of further flags. -/
  | lettered (option : OptionForm κ) (after : Text)
  /-- It looks like an option but is none. -/
  | unknown (text : Text)
  deriving Repr

def divider : Text := ['-', '-']

/-- Does a text have the form of a negative number? A line feed may follow. -/
def isNegativeNumber (text : Text) : Bool :=
  match (Text.dropTail? ['\n'] text).getD text with
  | '-' :: rest =>
    match Text.cutAt '.' rest with
    | none => !rest.isEmpty && rest.all isDecimalDigit
    | some (whole, fraction) => whole.all isDecimalDigit && !fraction.isEmpty && fraction.all isDecimalDigit
  | _ => false

def find? {κ : Type} (table : List (OptionForm κ)) (name : Text) : Option (OptionForm κ) :=
  table.find? fun option => option.names.contains name

/-- An argument that starts with a dash and is no option. -/
def strange {κ : Type} (text : Text) : Word κ :=
  if isNegativeNumber text || decide (' ' ∈ text) then .operand text else .unknown text

/-- An argument that starts with one dash and is not the name of an option. -/
def ofDash {κ : Type} (table : List (OptionForm κ)) (text : Text) : Word κ :=
  match text with
  | '-' :: c :: after =>
    match find? table ['-', c] with
    | some option => .lettered option after
    | none => strange text
  | _ => .operand text

/-- An argument that starts with two dashes and is not the name of an option. -/
def ofDashes {κ : Type} (table : List (OptionForm κ)) (text : Text) : Except UsageFault (Word κ) :=
  let (start, value) :=
    match Text.cutAt '=' text with
    | some (start, value) => (start, some value)
    | none => (text, none)
  match table.filter fun option => option.name.startsWith start with
  | [] => .ok (strange text)
  | [option] => .ok (.named option value)
  | options => .error (.ambiguous text (options.map (·.name)))

/-- An argument that is the name of an option, an equals sign and a value. What is given to a letter in this way are
    further letters, if there is anything. -/
def ofAssignment {κ : Type} (option : OptionForm κ) (name value : Text) : Word κ :=
  if name ≠ option.name && !value.isEmpty then .lettered option value else .named option (some value)

/-- What an argument is, as far as it can be told without the others. -/
def classify {κ : Type} (table : List (OptionForm κ)) (text : Text) : Except UsageFault (Word κ) :=
  if text.head? ≠ some '-' then .ok (.operand text)
  else
    match find? table text with
    | some option => .ok (.named option none)
    | none =>
      match (Text.cutAt '=' text).bind fun (name, value) => (find? table name).map (ofAssignment · name value) with
      | some word => .ok word
      | none => if text.startsWith divider then ofDashes table text else .ok (ofDash table text)

/-- What arguments are. After two dashes all are operands. -/
def classifyAll {κ : Type} (table : List (OptionForm κ)) : List Text → Except UsageFault (List (Word κ))
  | [] => .ok []
  | text :: rest =>
    if text = divider then .ok (.divider :: rest.map .operand)
    else do
      let word ← classify table text
      return word :: (← classifyAll table rest)

/-! ## The command line -/

/-- What a command line says, piece by piece. -/
inductive Item (κ : Type) where
  | option (meaning : κ) (value : Option Text)
  | operand (text : Text)
  | unrecognized (text : Text)
  /-- What follows is not looked at. -/
  | fault (cause : UsageFault)
  deriving Repr

/-- The flags that stand together after one dash, when `option` is the first of them. What is not the letter of a flag
    spoils them all: it is taken, with all that follows, for a value of the flag before it. -/
def together {κ : Type} (table : List (OptionForm κ)) (option : OptionForm κ) :
    Text → Except UsageFault (List (Item κ))
  | [] => .ok [.option option.meaning none]
  | c :: after =>
    match find? table ['-', c] with
    | some next => do return .option option.meaning none :: (← together table next after)
    | none => .error (.valueIgnored option.shown (c :: after))

/-- What an option is given after an equals sign: two dashes stand for nothing. -/
def assigned? (value : Text) : Option Text := if value = divider then none else some value

/-- Where the operands of a command line are. -/
inductive Stage where
  /-- None was seen yet. -/
  | before
  /-- So many more may follow directly; any number if nothing is said. -/
  | within (left : Option Nat)
  /-- No further one is accepted. -/
  | after
  deriving Repr, DecidableEq

def Stage.pastOption : Stage → Stage
  | .before => .before
  | _ => .after

/-- How many more operands are accepted at a stage, if so many are accepted at all; any number if nothing is said. -/
def Stage.left (most : Option Nat) : Stage → Option Nat
  | .before => most
  | .within left => left
  | .after => some 0

def Stage.pastOperand? (most : Option Nat) (stage : Stage) : Option Stage :=
  match stage.left most with
  | none => some (.within none)
  | some 0 => none
  | some (left + 1) => some (.within (some left))

def items {κ : Type} (table : List (OptionForm κ)) (most : Option Nat) : Stage → List (Word κ) → List (Item κ)
  | _, [] => []
  | stage, .operand text :: rest =>
    match stage.pastOperand? most with
    | some stage => .operand text :: items table most stage rest
    | none => .unrecognized text :: items table most .after rest
  | .before, .divider :: rest => items table most (.within most) rest
  | .within left, .divider :: rest => items table most (.within left) rest
  | .after, .divider :: rest => .unrecognized divider :: items table most .after rest
  | stage, .unknown text :: rest => .unrecognized text :: items table most stage.pastOption rest
  | stage, .lettered option after :: rest =>
    match together table option after with
    | .ok flags => flags ++ items table most stage.pastOption rest
    | .error cause => [.fault cause]
  | stage, .named option (some value) :: rest =>
    match option.shape with
    | .flag _ => [.fault (.valueIgnored option.shown value)]
    | .value => .option option.meaning (assigned? value) :: items table most stage.pastOption rest
  | stage, .named option none :: rest =>
    match option.shape with
    | .flag _ => .option option.meaning none :: items table most stage.pastOption rest
    | .value =>
      match rest with
      | .operand value :: rest => .option option.meaning (some value) :: items table most stage.pastOption rest
      | _ => [.fault (.valueMissing option.shown)]

/-- What a command line says, to a program that accepts at most so many operands. -/
def read {κ : Type} (table : List (OptionForm κ)) (most : Option Nat) (arguments : List Text) :
    Except UsageFault (List (Item κ)) :=
  (classifyAll table arguments).map (items table most .before)

inductive Interruption where
  /-- The user asked for help. -/
  | help
  | refused (cause : UsageFault)
  deriving Repr, DecidableEq

/-- Collects what the items of a command line say. `option` and `operand` say what becomes of a request. Arguments
    that are not recognized are reported only if nothing else stops the reading. -/
def collect {κ ρ : Type} (option : ρ → κ → Option Text → Except Interruption ρ) (operand : ρ → Text → ρ) :
    ρ → (strangers : List Text) → List (Item κ) → Except Interruption ρ
  | request, [], [] => .ok request
  | _, strangers, [] => .error (.refused (.unrecognized strangers))
  | request, strangers, .option meaning value :: rest => do
    collect option operand (← option request meaning value) strangers rest
  | request, strangers, .operand text :: rest => collect option operand (operand request text) strangers rest
  | request, strangers, .unrecognized text :: rest => collect option operand request (strangers ++ [text]) rest
  | _, _, .fault cause :: _ => .error (.refused cause)

end Arguments

end Changelog
