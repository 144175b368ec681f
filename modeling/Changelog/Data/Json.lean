import Changelog.Data.Basic
import Changelog.Text.Digit

/-! # JSON

Data in its usual exchange format. Numbers that are not finite have names, a key that is given again takes the
later value, and control characters in texts are refused. Numbers of too many digits are refused as well.
-/

namespace Changelog.Json

def isSpace (c : Char) : Bool := c == ' ' || c == '\t' || c == '\n' || c == '\r'

def skipSpace (text : Text) : Text := text.dropWhile isSpace

def hexValue? (c : Char) : Option Nat :=
  if isPlainDigit c then some (c.toNat - '0'.toNat)
  else if 'a'.toNat ≤ c.toNat && c.toNat ≤ 'f'.toNat then some (c.toNat - 'a'.toNat + 10)
  else if 'A'.toNat ≤ c.toNat && c.toNat ≤ 'F'.toNat then some (c.toNat - 'A'.toNat + 10)
  else none

def readHex : (n : Nat) → Text → Option (Nat × Text)
  | 0, text => some (0, text)
  | _ + 1, [] => none
  | n + 1, c :: text => do
    let digit ← hexValue? c
    let (value, rest) ← readHex n text
    return (digit * Nat.pow 16 n + value, rest)

/-- The character that a letter after a backslash stands for. -/
def escaped? : Char → Option Char
  | '\x22' => some '\x22'
  | '\x5c' => some '\x5c'
  | '/' => some '/'
  | 'b' => some (Char.ofNat 8)
  | 'f' => some (Char.ofNat 12)
  | 'n' => some '\n'
  | 'r' => some '\r'
  | 't' => some '\t'
  | _ => none

/-- Stands for half of a surrogate pair. -/
def replacement : Char := Char.ofNat 0xfffd

/-- A character given by its number in two units if it needs them, after the first of them. -/
def readUnit (text : Text) : Option (Char × Text) := do
  let (unit, rest) ← readHex 4 text
  if 0xd800 ≤ unit && unit < 0xdc00 then
    match rest with
    | '\x5c' :: 'u' :: more =>
      match readHex 4 more with
      | some (low, after) =>
        if 0xdc00 ≤ low && low < 0xe000 then
          return (Char.ofNat (0x10000 + (unit - 0xd800) * 0x400 + (low - 0xdc00)), after)
        else return (replacement, rest)
      | none => return (replacement, rest)
    | _ => return (replacement, rest)
  else if 0xdc00 ≤ unit && unit < 0xe000 then return (replacement, rest)
  else return (Char.ofNat unit, rest)

/-- A text up to its closing quote, with at most `fuel` characters in it. -/
def readText : (fuel : Nat) → Text → Option (Text × Text)
  | 0, _ => none
  | _, [] => none
  | _ + 1, '\x22' :: rest => some ([], rest)
  | fuel + 1, '\x5c' :: 'u' :: rest => do
    let (c, after) ← readUnit rest
    let (text, after) ← readText fuel after
    return (c :: text, after)
  | fuel + 1, '\x5c' :: c :: rest => do
    let c ← escaped? c
    let (text, after) ← readText fuel rest
    return (c :: text, after)
  | fuel + 1, c :: rest => do
    if c.toNat < 0x20 || c = '\x5c' then none
    else
      let (text, after) ← readText fuel rest
      return (c :: text, after)

def decimalOf (negative : Bool) (whole fraction : Text) (exponent : Int) : Decimal :=
  .finite negative (Nat.ofDigitChars 10 (whole ++ fraction) 0) (exponent - fraction.length)

def readFraction (text : Text) : Option (Text × Text) :=
  match text with
  | '.' :: after =>
    let digits := after.takeWhile isPlainDigit
    if digits.isEmpty then none else some (digits, after.dropWhile isPlainDigit)
  | _ => none

def readExponent (text : Text) : Option (Int × Text) :=
  match text with
  | c :: after =>
    if c == 'e' || c == 'E' then
      let (negative, unsigned) :=
        match after with
        | '-' :: rest => (true, rest)
        | '+' :: rest => (false, rest)
        | _ => (false, after)
      let digits := unsigned.takeWhile isPlainDigit
      if digits.isEmpty then none
      else
        let value : Int := Nat.ofDigitChars 10 digits 0
        some (if negative then -value else value, unsigned.dropWhile isPlainDigit)
    else none
  | [] => none

/-- A number: an integer, unless a fraction or an exponent follows. -/
def readNumber (text : Text) : Option (Data × Text) :=
  let (negative, unsigned) :=
    match text with
    | '-' :: rest => (true, rest)
    | _ => (false, text)
  let (whole, after) :=
    match unsigned with
    | '0' :: rest => (['0'], rest)
    | _ => (unsigned.takeWhile isPlainDigit, unsigned.dropWhile isPlainDigit)
  if whole.isEmpty then none
  else
    let (fraction, afterFraction) := (readFraction after).getD ([], after)
    match readExponent afterFraction with
    | some (exponent, rest) => some (.decimal (decimalOf negative whole fraction exponent), rest)
    | none =>
      if !fraction.isEmpty then some (.decimal (decimalOf negative whole fraction 0), afterFraction)
      else if maxNumberDigits < whole.length then none
      else
        let value : Int := Nat.ofDigitChars 10 whole 0
        some (.int (if negative then -value else value), after)

def words : List (Text × Data) :=
  [("null".toList, .null), ("true".toList, .bool true), ("false".toList, .bool false),
    ("NaN".toList, .decimal .notANumber), ("Infinity".toList, .decimal (.infinite false)),
    ("-Infinity".toList, .decimal (.infinite true))]

def readWord (text : Text) : Option (Data × Text) :=
  words.findSome? fun (word, value) => (Text.dropLead? word text).map fun rest => (value, rest)

mutual

/-- A value. Every step uses up fuel, of which there is more than characters. -/
def readValue : (fuel : Nat) → Text → Option (Data × Text)
  | 0, _ => none
  | fuel + 1, text =>
    match text with
    | '\x22' :: rest => (readText (rest.length + 1) rest).map fun (t, after) => (.text t, after)
    | '[' :: rest =>
      match skipSpace rest with
      | ']' :: after => some (.list [], after)
      | inside => (readItems fuel inside).map fun (items, after) => (.list items, after)
    | '\x7b' :: rest =>
      match skipSpace rest with
      | '\x7d' :: after => some (.object [], after)
      | inside => (readFields fuel inside).map fun (fields, after) => (Data.ofFields fields, after)
    | _ => readWord text <|> readNumber text

def readItems : (fuel : Nat) → Text → Option (List Data × Text)
  | 0, _ => none
  | fuel + 1, text => do
    let (item, rest) ← readValue fuel text
    match skipSpace rest with
    | ']' :: after => return ([item], after)
    | ',' :: more =>
      let (items, after) ← readItems fuel (skipSpace more)
      return (item :: items, after)
    | _ => none

def readFields : (fuel : Nat) → Text → Option (List (Text × Data) × Text)
  | 0, _ => none
  | fuel + 1, text =>
    match text with
    | '\x22' :: quoted => do
      let (key, rest) ← readText (quoted.length + 1) quoted
      match skipSpace rest with
      | ':' :: value =>
        let (item, rest) ← readValue fuel (skipSpace value)
        match skipSpace rest with
        | '\x7d' :: after => return ([(key, item)], after)
        | ',' :: more =>
          let (fields, after) ← readFields fuel (skipSpace more)
          return ((key, item) :: fields, after)
        | _ => none
      | _ => none
    | _ => none

end

/-- The value that a text stands for. -/
def parse? (text : Text) : Option Data :=
  match readValue (text.length + 1) (skipSpace text) with
  | some (value, rest) => if (skipSpace rest).isEmpty then some value else none
  | none => none

end Changelog.Json
