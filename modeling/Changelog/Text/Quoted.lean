import Changelog.Text.Basic
import Changelog.Text.PrintableRanges

/-! # Quoted text

How a value is shown inside a message: between single quotes, or between double quotes when it holds a
single quote and no double quote, with a backslash before what would not show as it is.
-/

namespace Changelog.Text

def isPrintable (c : Char) : Bool :=
  if c.toNat < 128 then 32 ≤ c.toNat && c.toNat < 127
  else printableRanges.any fun (first, last) => first ≤ c.toNat && c.toNat ≤ last

/-- `n` in hexadecimal, filled up with zeros to `width` digits. -/
def hexadecimal (width n : Nat) : Text :=
  let digits := Nat.toDigits 16 n
  List.replicate (width - digits.length) '0' ++ digits

def quotedChar (quote c : Char) : Text :=
  if c = quote || c = '\x5c' then ['\x5c', c]
  else if c = '\t' then ['\x5c', 't']
  else if c = '\n' then ['\x5c', 'n']
  else if c = '\r' then ['\x5c', 'r']
  else if isPrintable c then [c]
  else if c.toNat < 0x100 then '\x5c' :: 'x' :: hexadecimal 2 c.toNat
  else if c.toNat < 0x10000 then '\x5c' :: 'u' :: hexadecimal 4 c.toNat
  else '\x5c' :: 'U' :: hexadecimal 8 c.toNat

/-- The quote for a text: single, unless only the double quote needs no backslash. -/
def quoteFor (text : Text) : Char := if '\x27' ∈ text && !decide ('\x22' ∈ text) then '\x22' else '\x27'

def quoted (text : Text) : Text :=
  let quote := quoteFor text
  quote :: text.flatMap (quotedChar quote) ++ [quote]

def quotedList (texts : List Text) : Text := '[' :: join (ofString ", ") (texts.map quoted) ++ [']']

end Changelog.Text
