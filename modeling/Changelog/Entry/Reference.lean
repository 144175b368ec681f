import Changelog.Text.Letter
import Changelog.Text.Line

/-! # References

A line of a commit message that says `Ref` or `See` and names issues by their keys is taken out of the
message, and the keys are kept.
-/

namespace Changelog.Reference

/-- An issue key: two to four letters, a dash and digits. -/
def readKey (text : Text) : Option (Text × Text) :=
  let letters := text.takeWhile isLetterForm
  match text.dropWhile isLetterForm with
  | '-' :: after =>
    let digits := after.takeWhile isDecimalDigit
    if 2 ≤ letters.length && letters.length ≤ 4 && !digits.isEmpty then
      some (letters ++ '-' :: digits, after.dropWhile isDecimalDigit)
    else none
  | _ => none

/-- What may stand between keys: the word `and` in any case, or a comma, with blanks; or nothing at all. -/
def readSeparator (text : Text) : Text × Text :=
  match Text.dropLeadFolded? (Text.ofString " and ") text with
  | some rest => (text.take 5, rest)
  | none =>
    match text with
    | ',' :: ' ' :: rest => ([',', ' '], rest)
    | _ => ([], text)

theorem length_of_readKey {text key rest : Text} (h : readKey text = some (key, rest)) :
    rest.length < text.length := by
  unfold readKey at h
  have h1 := (List.dropWhile_suffix (l := text) isLetterForm).length_le
  split at h
  next after heq =>
    dsimp only at h
    split at h
    · simp only [Option.some.injEq, Prod.mk.injEq] at h
      obtain ⟨_, rfl⟩ := h
      have h2 := (List.dropWhile_suffix (l := after) isDecimalDigit).length_le
      rw [heq, List.length_cons] at h1
      omega
    · simp at h
  next => simp at h

theorem length_of_dropLeadFolded {lead text rest : Text} (h : Text.dropLeadFolded? lead text = some rest) :
    rest.length ≤ text.length := by
  induction lead generalizing text with
  | nil =>
    simp only [Text.dropLeadFolded?, Option.some.injEq] at h
    simp [h]
  | cons l lead ih =>
    cases text with
    | nil => simp [Text.dropLeadFolded?] at h
    | cons c text =>
      simp only [Text.dropLeadFolded?] at h
      split at h
      · exact Nat.le_succ_of_le (ih h)
      · simp at h

theorem length_readSeparator (text : Text) : (readSeparator text).2.length ≤ text.length := by
  unfold readSeparator
  split
  next rest h => exact length_of_dropLeadFolded h
  next =>
    split
    · simp only [List.length_cons]
      omega
    · simp

/-- One or more keys, each with the separator after it, and the text after them. -/
def readKeys (text : Text) : Option (Text × Text) :=
  match _h : readKey text with
  | none => none
  | some (key, after) =>
    let (separator, next) := readSeparator after
    match readKeys (readSeparator after).2 with
    | none => some (key ++ separator, next)
    | some (keys, rest) => some (key ++ separator ++ keys, rest)
termination_by text.length
decreasing_by exact Nat.lt_of_le_of_lt (length_readSeparator after) (length_of_readKey _h)

/-- The keys at the start of a line that refers to issues, with their separators, and the rest of the line.
    After the keys the line ends, or a full stop comes and blanks after it are dropped. -/
def readLine (line : Text) : Option (Text × Text) := do
  let after ← Text.dropLeadFolded? (Text.ofString "ref ") line <|> Text.dropLeadFolded? (Text.ofString "see ") line
  let (keys, rest) ← readKeys after
  match rest with
  | [] => some (keys, [])
  | '.' :: rest => some (keys, Text.stripLead rest)
  | _ => none

def splitKeys (keys : Text) : List Text :=
  ((Text.splitAll (Text.ofString " and ") keys).flatMap (Text.splitAll [',', ' '])).filter (!·.isEmpty)

/-- The lines of a description, which end at line feeds with or without a carriage return. -/
def descriptionLines (description : Text) : List Text :=
  match description.splitOn '\n' with
  | [] => []
  | lines =>
    lines.dropLast.map (fun line => (Text.dropTail? ['\r'] line).getD line) ++ lines.getLast?.toList

/-- The description without its references, and the references in their order. -/
def take (description : Text) : Text × List Text :=
  let read := (descriptionLines description).map fun line =>
    match readLine line with
    | some (keys, rest) => (rest, splitKeys keys)
    | none => (line, [])
  (Text.strip (Text.join ['\n'] (read.map (·.1))), (read.map (·.2)).flatten)

end Changelog.Reference
