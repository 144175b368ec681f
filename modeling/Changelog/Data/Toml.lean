import Changelog.Data.Json
import Changelog.Text.Letter

/-! # TOML

Data in its format for configuration files. A document is a sequence of statements: a table header, a header of
a table in a list, or a key with its value. Tables can be opened once, and values that are written in one piece
cannot be added to.
-/

namespace Changelog.Toml

/-- The way to a value through tables. -/
abbrev Key := List Text

/-! ## Tables -/

/-- A document while it is read: its tables, which of them can no longer be opened by a header, which values can
    no longer be changed, and which tables can no longer be opened once another header comes. -/
structure State where
  root : List (Text × Data) := []
  closed : List Key := []
  frozen : List Key := []
  pending : List Key := []
  header : Key := []

namespace State

/-- Does the key lead to or into a value that cannot be changed? -/
def isFrozen (s : State) (key : Key) : Bool := s.frozen.any fun way => way.isPrefixOf key

def isClosed (s : State) (key : Key) : Bool := s.closed.contains key

end State

/-- Changes the table that a key leads to; tables on the way are made. A list leads to its last item if `enter`
    is set. -/
def updateTable (enter : Bool) (f : List (Text × Data) → Option (List (Text × Data))) :
    Key → List (Text × Data) → Option (List (Text × Data))
  | [], table => f table
  | name :: key, table =>
    match Data.lookup? name table with
    | none => (updateTable enter f key []).map fun inner => Data.insert name (.object inner) table
    | some (.object inner) =>
      (updateTable enter f key inner).map fun inner => Data.insert name (.object inner) table
    | some (.list items) =>
      if !enter then none
      else
        match items.getLast? with
        | some (.object inner) =>
          (updateTable enter f key inner).map fun inner =>
            Data.insert name (.list (items.dropLast ++ [.object inner])) table
        | _ => none
    | some _ => none

def addField (name : Text) (value : Data) (table : List (Text × Data)) : Option (List (Text × Data)) :=
  if (Data.lookup? name table).isSome then none else some (Data.insert name value table)

def addListTable (name : Text) (table : List (Text × Data)) : Option (List (Text × Data)) :=
  match Data.lookup? name table with
  | none => some (Data.insert name (.list [.object []]) table)
  | some (.list items) => some (Data.insert name (.list (items ++ [.object []])) table)
  | some _ => none

namespace State

/-- Ends the statements under a header. -/
def finish (s : State) : State := { s with closed := s.closed ++ s.pending, pending := [] }

def openTable (s : State) (key : Key) : Option State := do
  let s := s.finish
  if s.isClosed key || s.isFrozen key then none
  else
    let root ← updateTable true some key s.root
    return { s with root, closed := s.closed ++ [key], header := key }

def openListTable (s : State) (key : Key) : Option State := do
  let s := s.finish
  if s.isFrozen key then none
  else
    let kept := fun (ways : List Key) => ways.filter fun way => !key.isPrefixOf way
    let root ← updateTable true (addListTable (key.getLast?.getD [])) key.dropLast s.root
    return { s with root, closed := kept s.closed ++ [key], frozen := kept s.frozen, header := key }

/-- Is the value written in one piece? -/
def isCompound : Data → Bool
  | .object _ | .list _ => true
  | _ => false

/-- The ways to the tables on a dotted key, from the first on, seen from a header. -/
def dottedWays (header key : Key) : List Key := (List.range (key.length - 1)).map fun i => header ++ key.take (i + 1)

def setValue (s : State) (key : Key) (value : Data) : Option State := do
  let ways := dottedWays s.header key
  let parent := s.header ++ key.dropLast
  if ways.any s.isClosed || s.isFrozen parent then none
  else
    let root ← updateTable true (addField (key.getLast?.getD []) value) parent s.root
    return { s with
      root, pending := s.pending ++ ways
      frozen := if isCompound value then s.frozen ++ [s.header ++ key] else s.frozen }

end State

/-! ## Tokens -/

def skipBlanks (text : Text) : Text := text.dropWhile fun c => c == ' ' || c == '\t'

/-- A control character other than the tab. -/
def isControl (c : Char) : Bool := (c.toNat < 32 && c != '\t') || c.toNat == 127

def skipComment (text : Text) : Option Text :=
  match text with
  | '#' :: rest =>
    if (rest.takeWhile (· != '\n')).any isControl then none else some (rest.dropWhile (· != '\n'))
  | _ => some text

def skipLines : (fuel : Nat) → Text → Option Text
  | 0, text => some text
  | fuel + 1, text => do
    let spaced := text.dropWhile fun c => c == ' ' || c == '\t' || c == '\n'
    let rest ← skipComment spaced
    if rest.length = text.length then return rest else skipLines fuel rest

def isBareKeyChar (c : Char) : Bool := isPlainLetter c || isPlainDigit c || c == '-' || c == '_'

def startsKey (c : Char) : Bool := isBareKeyChar c || c == '\x22' || c == '\x27'

/-- A literal text up to the first `close`, without control characters other than `allowed`. -/
def readLiteral (close : Text) (allowed : Char → Bool) : Text → Option (Text × Text)
  | [] => none
  | c :: rest =>
    match Text.dropLead? close (c :: rest) with
    | some after => some ([], after)
    | none =>
      if isControl c && !allowed c then none
      else (readLiteral close allowed rest).map fun (text, after) => (c :: text, after)

def readCodePoint (n : Nat) (text : Text) : Option (Char × Text) := do
  let (value, rest) ← Json.readHex n text
  if value < 0xd800 || (0xe000 ≤ value && value < 0x110000) then return (Char.ofNat value, rest) else none

def escaped? (c : Char) : Option Char := if c = '/' then none else Json.escaped? c

/-- What follows a backslash that ends a line, without the blanks and line feeds after it. -/
def skipLineEnd (text : Text) : Option Text :=
  match text.dropWhile (fun c => c == ' ' || c == '\t') with
  | [] => if text.isEmpty then none else some []
  | '\n' :: rest => some (rest.dropWhile fun c => c == ' ' || c == '\t' || c == '\n')
  | _ => none

/-- A text with escapes up to its closing quotes. A text of several lines ends with three quotes, may hold line
    feeds, and goes on without a break after a backslash at the end of a line. -/
def readBasic (multiline : Bool) : (fuel : Nat) → Text → Option (Text × Text)
  | 0, _ => none
  | _, [] => none
  | fuel + 1, '\x22' :: rest =>
    if !multiline then some ([], rest)
    else
      match rest with
      | '\x22' :: '\x22' :: after => some ([], after)
      | _ => (readBasic multiline fuel rest).map fun (text, after) => ('\x22' :: text, after)
  | fuel + 1, '\x5c' :: rest =>
    match rest with
    | 'u' :: hex => do
      let (c, after) ← readCodePoint 4 hex
      let (text, after) ← readBasic multiline fuel after
      return (c :: text, after)
    | 'U' :: hex => do
      let (c, after) ← readCodePoint 8 hex
      let (text, after) ← readBasic multiline fuel after
      return (c :: text, after)
    | _ =>
      if multiline && (rest.head?.map fun c => c == ' ' || c == '\t' || c == '\n').getD false then do
        readBasic multiline fuel (← skipLineEnd rest)
      else
        match rest with
        | c :: more => do
          let c ← escaped? c
          let (text, after) ← readBasic multiline fuel more
          return (c :: text, after)
        | [] => none
  | fuel + 1, c :: rest =>
    if isControl c && !(multiline && c == '\n') then none
    else (readBasic multiline fuel rest).map fun (text, after) => (c :: text, after)

/-- Up to two more quotes, which belong to a text of several lines that ends with them. -/
def readExtraQuotes (quote : Char) (text : Text) : Text × Text :=
  let extra := (text.takeWhile (· == quote)).take 2
  (extra, text.drop extra.length)

def readString (text : Text) : Option (Text × Text) :=
  match text with
  | '\x22' :: '\x22' :: '\x22' :: rest => do
    let rest := (Text.dropLead? ['\n'] rest).getD rest
    let (inside, after) ← readBasic true (rest.length + 1) rest
    let (extra, after) := readExtraQuotes '\x22' after
    return (inside ++ extra, after)
  | '\x27' :: '\x27' :: '\x27' :: rest => do
    let rest := (Text.dropLead? ['\n'] rest).getD rest
    let (inside, after) ← readLiteral ['\x27', '\x27', '\x27'] (· == '\n') rest
    let (extra, after) := readExtraQuotes '\x27' after
    return (inside ++ extra, after)
  | '\x22' :: rest => readBasic false (rest.length + 1) rest
  | '\x27' :: rest => readLiteral ['\x27'] (fun _ => false) rest
  | _ => none

/-- A part of a key: bare, or between quotes on one line. -/
def readKeyPart (text : Text) : Option (Text × Text) :=
  match text with
  | '\x22' :: rest => readBasic false (rest.length + 1) rest
  | '\x27' :: rest => readLiteral ['\x27'] (fun _ => false) rest
  | _ =>
    let part := text.takeWhile isBareKeyChar
    if part.isEmpty then none else some (part, text.dropWhile isBareKeyChar)

/-- A key of parts with full stops between them, and the blanks after it. -/
def readKey : (fuel : Nat) → Text → Option (Key × Text)
  | 0, _ => none
  | fuel + 1, text => do
    let (part, rest) ← readKeyPart text
    match skipBlanks rest with
    | '.' :: more =>
      let (key, after) ← readKey fuel (skipBlanks more)
      return (part :: key, after)
    | after => return ([part], after)

/-! ## Numbers, dates and times -/

/-- Digits with single underscores between them, the first one at once; the digits without the underscores. -/
def readDigits (isDigit : Char → Bool) : Text → Text × Text
  | [] => ([], [])
  | [c] => if isDigit c then ([c], []) else ([], [c])
  | c :: d :: rest =>
    if isDigit c then
      let (digits, after) :=
        if d == '_' then
          match rest with
          | e :: _ => if isDigit e then readDigits isDigit rest else ([], d :: rest)
          | [] => ([], d :: rest)
        else readDigits isDigit (d :: rest)
      (c :: digits, after)
    else ([], c :: d :: rest)

def baseValue (base : Nat) (digits : Text) : Nat :=
  digits.foldl (fun n c => base * n + (Json.hexValue? c).getD 0) 0

def isBaseDigit (base : Nat) (c : Char) : Bool := ((Json.hexValue? c).map fun value => decide (value < base)).getD false

def readBased (text : Text) : Option (Data × Text) :=
  let based := fun (base : Nat) (rest : Text) =>
    let (digits, after) := readDigits (isBaseDigit base) rest
    if digits.isEmpty then none else some (Data.int (baseValue base digits), after)
  match text with
  | '0' :: 'x' :: rest => based 16 rest
  | '0' :: 'b' :: rest => based 2 rest
  | '0' :: 'o' :: rest => based 8 rest
  | _ => none

/-- A fraction after a full stop: its digits. -/
def readFraction (text : Text) : Text × Text :=
  match text with
  | '.' :: rest =>
    let (digits, after) := readDigits isPlainDigit rest
    if digits.isEmpty then ([], text) else (digits, after)
  | _ => ([], text)

def readExponent (text : Text) : Option Int × Text :=
  match text with
  | c :: rest =>
    if c == 'e' || c == 'E' then
      let (negative, unsigned) :=
        match rest with
        | '-' :: rest => (true, rest)
        | '+' :: rest => (false, rest)
        | _ => (false, rest)
      let (digits, after) := readDigits isPlainDigit unsigned
      if digits.isEmpty then (none, text)
      else
        let value : Int := Nat.ofDigitChars 10 digits 0
        (some (if negative then -value else value), after)
    else (none, text)
  | [] => (none, text)

def readDecimal (text : Text) : Option (Data × Text) :=
  let (negative, unsigned) :=
    match text with
    | '-' :: rest => (true, rest)
    | '+' :: rest => (false, rest)
    | _ => (false, text)
  let (whole, after) :=
    match unsigned with
    | '0' :: rest => (['0'], rest)
    | _ => readDigits isPlainDigit unsigned
  if whole.isEmpty then none
  else
    let (fraction, afterFraction) := readFraction after
    let (exponent, rest) := readExponent afterFraction
    if fraction.isEmpty && exponent.isNone then
      if maxNumberDigits < whole.length then none
      else
        let value : Int := Nat.ofDigitChars 10 whole 0
        some (.int (if negative then -value else value), rest)
    else some (.decimal (Json.decimalOf negative whole fraction (exponent.getD 0)), rest)

/-- The decimal numbers that are not finite. -/
def specials : List (Text × Data) :=
  [("inf".toList, .decimal (.infinite false)), ("nan".toList, .decimal .notANumber),
    ("-inf".toList, .decimal (.infinite true)), ("+inf".toList, .decimal (.infinite false)),
    ("-nan".toList, .decimal .notANumber), ("+nan".toList, .decimal .notANumber)]

def readWord (words : List (Text × Data)) (text : Text) : Option (Data × Text) :=
  words.findSome? fun (word, value) => (Text.dropLead? word text).map fun rest => (value, rest)

/-- A number of exactly two digits, from `least` to `most`. -/
def readTwo (least most : Nat) (text : Text) : Option (Nat × Text) :=
  match text with
  | a :: b :: rest =>
    let value := 10 * (a.toNat - '0'.toNat) + (b.toNat - '0'.toNat)
    if isPlainDigit a && isPlainDigit b && least ≤ value && value ≤ most then some (value, rest) else none
  | _ => none

/-- The text after a time of day with an optional fraction of a second. -/
def skipTime (text : Text) : Option Text := do
  let (_, rest) ← readTwo 0 23 text
  let (_, rest) ← readTwo 0 59 (← Text.dropLead? [':'] rest)
  let (_, rest) ← readTwo 0 59 (← Text.dropLead? [':'] rest)
  match rest with
  | '.' :: c :: more => if isPlainDigit c then return more.dropWhile isPlainDigit else return rest
  | _ => return rest

def skipOffset (text : Text) : Text :=
  match text with
  | c :: rest =>
    if c == 'Z' || c == 'z' then rest
    else if c == '+' || c == '-' then
      (do
        let (_, rest) ← readTwo 0 23 rest
        let (_, rest) ← readTwo 0 59 (← Text.dropLead? [':'] rest)
        return rest).getD text
    else text
  | [] => text

def daysIn (year month : Nat) : Nat :=
  if month = 2 then
    if year % 4 = 0 && (year % 100 != 0 || year % 400 = 0) then 29 else 28
  else if month = 4 || month = 6 || month = 9 || month = 11 then 30
  else 31

/-- A date: whether there is such a day, and the text after it. -/
def readDate (text : Text) : Option (Bool × Text) := do
  let (century, rest) ← readTwo 0 99 text
  let (decade, rest) ← readTwo 0 99 rest
  let (month, rest) ← readTwo 1 12 (← Text.dropLead? ['-'] rest)
  let (day, rest) ← readTwo 1 31 (← Text.dropLead? ['-'] rest)
  let year := 100 * century + decade
  return (decide (1 ≤ year) && decide (day ≤ daysIn year month), rest)

/-- What is left of `text` in front of `rest`. -/
def consumed (text rest : Text) : Text := text.take (text.length - rest.length)

/-- A date with an optional time, or a time. A date that is no day is refused. -/
def readMoment (text : Text) : Option (Option Data × Text) :=
  match readDate text with
  | some (isDay, rest) =>
    let after :=
      match rest with
      | c :: more =>
        if c == 'T' || c == 't' || c == ' ' then ((skipTime more).map skipOffset).getD rest else rest
      | [] => rest
    some (if isDay then some (.moment (consumed text after)) else none, after)
  | none => (skipTime text).map fun rest => (some (.moment (consumed text rest)), rest)

/-- A value that is neither a text nor made of other values. -/
def readScalar (text : Text) : Option (Data × Text) :=
  match readWord [("true".toList, .bool true), ("false".toList, .bool false)] text with
  | some found => some found
  | none =>
    match readMoment text with
    | some (some moment, rest) => some (moment, rest)
    | some (none, _) => none
    | none => readBased text <|> readDecimal text <|> readWord specials text

/-! ## Values -/

/-- An inline table while it is read: its fields and the keys whose values cannot be changed. -/
structure InlineTable where
  fields : List (Text × Data) := []
  frozen : List Key := []

def InlineTable.set (t : InlineTable) (key : Key) (value : Data) : Option InlineTable := do
  if t.frozen.any fun way => way.isPrefixOf key then none
  else
    let fields ← updateTable false (addField (key.getLast?.getD []) value) key.dropLast t.fields
    return { fields, frozen := if State.isCompound value then t.frozen ++ [key] else t.frozen }

mutual

/-- A value. Every step uses up fuel, of which there is more than characters. -/
def readValue : (fuel : Nat) → Text → Option (Data × Text)
  | 0, _ => none
  | fuel + 1, text =>
    match text with
    | '\x22' :: _ | '\x27' :: _ => (readString text).map fun (t, after) => (.text t, after)
    | '[' :: rest => do
      let inside ← skipLines rest.length rest
      match inside with
      | ']' :: after => return (.list [], after)
      | _ =>
        let (items, after) ← readItems fuel inside
        return (.list items, after)
    | '\x7b' :: rest =>
      match skipBlanks rest with
      | '\x7d' :: after => some (.object [], after)
      | inside => readInline fuel {} inside
    | _ => readScalar text

/-- The items of a list up to its closing bracket. A comma may stand after the last one. -/
def readItems : (fuel : Nat) → Text → Option (List Data × Text)
  | 0, _ => none
  | fuel + 1, text => do
    let (item, rest) ← readValue fuel text
    let rest ← skipLines rest.length rest
    match rest with
    | ']' :: after => return ([item], after)
    | ',' :: more =>
      let inside ← skipLines more.length more
      match inside with
      | ']' :: after => return ([item], after)
      | _ =>
        let (items, after) ← readItems fuel inside
        return (item :: items, after)
    | _ => none

def readInline : (fuel : Nat) → InlineTable → Text → Option (Data × Text)
  | 0, _, _ => none
  | fuel + 1, table, text => do
    let (key, rest) ← readKey (text.length + 1) text
    let value ← Text.dropLead? ['='] rest
    let (item, rest) ← readValue fuel (skipBlanks value)
    let table ← table.set key item
    match skipBlanks rest with
    | '\x7d' :: after => return (.object table.fields, after)
    | ',' :: more => readInline fuel table (skipBlanks more)
    | _ => none

end

/-! ## Documents -/

def readStatement (s : State) (text : Text) : Option (State × Text) :=
  match text with
  | '[' :: '[' :: rest => do
    let (key, after) ← readKey (rest.length + 1) (skipBlanks rest)
    let after ← Text.dropLead? [']', ']'] after
    return (← s.openListTable key, after)
  | '[' :: rest => do
    let (key, after) ← readKey (rest.length + 1) (skipBlanks rest)
    let after ← Text.dropLead? [']'] after
    return (← s.openTable key, after)
  | '#' :: _ => some (s, text)
  | c :: _ =>
    if startsKey c then do
      let (key, rest) ← readKey (text.length + 1) text
      let value ← Text.dropLead? ['='] rest
      let value := skipBlanks value
      let (item, after) ← readValue (value.length + 1) value
      return (← s.setValue key item, after)
    else none
  | [] => some (s, [])

def readStatements : (fuel : Nat) → State → Text → Option State
  | 0, _, _ => none
  | fuel + 1, s, text =>
    match skipBlanks text with
    | [] => some s
    | '\n' :: rest => readStatements fuel s rest
    | line => do
      let (s, after) ← readStatement s line
      let rest ← skipComment (skipBlanks after)
      match rest with
      | [] => return s
      | '\n' :: rest => readStatements fuel s rest
      | _ => none

/-- The data that a document stands for. A carriage return before a line feed belongs to it. -/
def parse? (text : Text) : Option Data :=
  let text := Text.replaceAll ['\r', '\n'] ['\n'] text
  (readStatements (text.length + 1) {} text).map fun s => .object s.root

end Changelog.Toml
