/-! # Text

Everything that is read from a document, a commit or a manifest is a list of characters. Lengths and
columns count characters, and texts compare character by character.
-/

namespace Changelog

/-- A run of characters. -/
abbrev Text := List Char

namespace Text

/-- The characters of a fixed phrase. -/
abbrev ofString (phrase : String) : Text := phrase.toList

instance lawfulBEq : LawfulBEq Text := inferInstanceAs (LawfulBEq (List Char))

/-- Whether all characters of a text are of some kind is found by going through the text, and not through all
    characters that there are. -/
instance (priority := 1100) decidableForallMem {p : Char → Prop} [DecidablePred p] (text : List Char) :
    Decidable (∀ c ∈ text, p c) := List.decidableBAll p text

instance (priority := 1100) decidableExistsMem {p : Char → Prop} [DecidablePred p] (text : List Char) :
    Decidable (∃ c ∈ text, p c) := List.decidableBEx p text

/-- Decimal digits of a number, without leading zeros. -/
def ofNat (n : Nat) : Text := Nat.toDigits 10 n

/-- Decimal digits of a number, after a minus sign when it is negative. -/
def ofInt : Int → Text
  | .ofNat n => ofNat n
  | .negSucc n => '-' :: ofNat (n + 1)

/-- `parts` in order with `separator` between neighbours. -/
def join (separator : Text) : List Text → Text
  | [] => []
  | [part] => part
  | part :: next :: rest => part ++ separator ++ join separator (next :: rest)

/-- What follows `lead`, if `text` starts with it. -/
def dropLead? (lead text : Text) : Option Text := List.isPrefixOf? lead text

def startsWith (text lead : Text) : Bool := List.isPrefixOf lead text

def endsWith (text tail : Text) : Bool := List.isSuffixOf tail text

/-- What precedes `tail`, if `text` ends with it. -/
def dropTail? (tail text : Text) : Option Text := List.isSuffixOf? tail text

/-- `text` without its longest tail of characters that satisfy `p`. -/
def dropTailWhile (p : Char → Bool) (text : Text) : Text := (text.reverse.dropWhile p).reverse

def takeTailWhile (p : Char → Bool) (text : Text) : Text := (text.reverse.takeWhile p).reverse

def contains (part : Text) : Text → Bool
  | [] => part.isEmpty
  | c :: rest => startsWith (c :: rest) part || contains part rest

/-- The part before the first `c` and the part after it. -/
def cutAt (c : Char) : Text → Option (Text × Text)
  | [] => none
  | d :: rest => if d = c then some ([], rest) else (cutAt c rest).map fun (before, after) => (d :: before, after)

def consFirst (c : Char) : List Text → List Text
  | [] => [[c]]
  | part :: parts => (c :: part) :: parts

/-- The parts of a text between occurrences of `separator`, while the first `skip` characters belong to an
    occurrence that was already seen. -/
def splitFrom (separator : Text) : Nat → Text → List Text
  | _, [] => [[]]
  | skip + 1, _ :: rest => splitFrom separator skip rest
  | 0, c :: rest =>
    if startsWith (c :: rest) separator then [] :: splitFrom separator (separator.length - 1) rest
    else consFirst c (splitFrom separator 0 rest)

/-- The parts of `text` between the occurrences of a non-empty `separator`, found from the left without
    overlap. There is always at least one part. -/
def splitAll (separator text : Text) : List Text := splitFrom separator 0 text

/-- `text` with every occurrence of a non-empty `old`, found from the left, written as `new`. -/
def replaceAll (old new text : Text) : Text := join new (splitAll old text)

@[simp] theorem splitFrom_ne_nil (separator : Text) (skip : Nat) (text : Text) :
    splitFrom separator skip text ≠ [] := by
  fun_induction splitFrom separator skip text with
  | case1 => simp
  | case2 skip _ rest ih => exact ih
  | case3 => simp
  | case4 c rest _ _ => cases splitFrom separator 0 rest <;> simp [consFirst]

@[simp] theorem splitAll_ne_nil (separator text : Text) : splitAll separator text ≠ [] :=
  splitFrom_ne_nil separator 0 text

theorem cutAt_eq_some {c : Char} {text before after : Text} (h : cutAt c text = some (before, after)) :
    text = before ++ c :: after := by
  induction text generalizing before with
  | nil => simp [cutAt] at h
  | cons d rest ih =>
    unfold cutAt at h
    split at h
    · simp_all
    · simp only [Option.map_eq_some_iff, Prod.exists, Prod.mk.injEq] at h
      obtain ⟨before', after', hcut, rfl, rfl⟩ := h
      simp [ih hcut]

end Text

end Changelog
