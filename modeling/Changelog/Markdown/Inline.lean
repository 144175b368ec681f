import Changelog.Markdown.Node
import Changelog.Text.Blank
import Changelog.Text.Lowercase

/-! # Inline content

The content of a heading is text with links, link references and code in it. A construct begins at a
bracket or a backtick; a bracket or backtick at which none begins is text.
-/

namespace Changelog

/-- The form of a label by which references find definitions: white space squeezed, lower case. -/
def normalizeLabel (label : Text) : Text := Text.lowercase (Text.join [' '] (Text.words label))

namespace Inline

/-! ## Parts of a construct

Each reader returns what it read and the text after it.
-/

/-- A label up to its closing bracket. A bracket inside a label needs a backslash, and a backslash takes the
    next character with it, which is not a line feed. -/
def readLabel : Text → Option (Text × Text)
  | [] => none
  | ']' :: rest => some ([], rest)
  | '[' :: _ => none
  | ['\x5c'] => none
  | '\x5c' :: c :: rest =>
    if c = '\n' then none else (readLabel rest).map fun (label, after) => ('\x5c' :: c :: label, after)
  | c :: rest => (readLabel rest).map fun (label, after) => (c :: label, after)

def readUntil (close : Char) (text : Text) : Option (Text × Text) := Text.cutAt close text

/-- A title between double quotes, single quotes or parentheses. -/
def readTitle : Text → Option (Text × Text)
  | '\x22' :: rest => readUntil '\x22' rest
  | '\x27' :: rest => readUntil '\x27' rest
  | '(' :: rest => readUntil ')' rest
  | _ => none

def readAngled : Text → Option (Text × Text)
  | '<' :: rest => (readUntil '>' rest).map fun (inside, after) => ('<' :: inside ++ ['>'], after)
  | _ => none

/-- A destination without its angle brackets, if it has both. -/
def dropAngles (destination : Text) : Text :=
  match Text.dropLead? ['<'] destination with
  | some inside => (Text.dropTail? ['>'] inside).getD destination
  | none => destination

def readTitled (text : Text) : Option (Text × Text) := do
  let (title, after) ← readTitle (text.dropWhile isSpaceOrTab)
  match after.dropWhile isSpaceOrTab with
  | ')' :: rest => some (title, rest)
  | _ => none

/-- What follows a destination: an optional title after blanks, blanks and the closing parenthesis. -/
def readTargetEnd (text : Text) : Option (Option Text × Text) :=
  match text.dropWhile isSpaceOrTab with
  | ')' :: rest => some (none, rest)
  | _ =>
    if (text.head?.map isSpaceOrTab).getD false then
      (readTitled text).map fun (title, rest) => (some title, rest)
    else none

/-- A destination with its end, after the blanks in front of it. Angle brackets are tried first, then
    everything up to white space or a closing parenthesis. -/
def readDestination (text : Text) : Option (Text × Option Text × Text) :=
  let angled := do
    let (destination, after) ← readAngled text
    let (title, rest) ← readTargetEnd after
    return (dropAngles destination, title, rest)
  angled <|> do
    let stops := fun c => isBlankChar c || c == ')'
    let (title, rest) ← readTargetEnd (text.dropWhile (!stops ·))
    return (dropAngles (text.takeWhile (!stops ·)), title, rest)

/-- The target of a link after its opening parenthesis: destination, title and the text after the link. A
    title after blanks may stand without a destination. -/
def readTarget (text : Text) : Option (Text × Option Text × Text) :=
  readDestination (text.dropWhile isSpaceOrTab) <|>
    (if (text.head?.map isSpaceOrTab).getD false then
      (readTitled text).map fun (title, rest) => ([], some title, rest)
    else none)

/-- Code up to the first run of exactly `k` backticks after a character that is none. Only the last character
    of the code can be a line feed. -/
def readCode (k : Nat) : Text → Option (Text × Text)
  | [] => none
  | c :: rest =>
    if c ≠ '\x60' ∧ (rest.takeWhile (· == '\x60')).length = k then some ([c], rest.drop k)
    else if c = '\n' then none
    else (readCode k rest).map fun (code, after) => (c :: code, after)

def countDown : Nat → List Nat
  | 0 => []
  | n + 1 => (n + 1) :: countDown n

/-! ## Constructs -/

/-- A construct at the start of a text: its node without children and position, the text that its children
    are read from, which starts with its second character, and the text after it. -/
structure Construct where
  node : Node
  inner : Text := []
  rest : Text
  deriving Repr, DecidableEq

/-- Code in backticks. The longest opening run that is closed again counts. -/
def readCodeSpan (text : Text) : Option Construct :=
  (countDown (text.takeWhile (· == '\x60')).length).findSome? fun k =>
    (readCode k (text.drop k)).map fun (code, rest) => { node := { kind := .inlineCode, value := some code }, rest }

def reference (label : Text) (form : ReferenceForm) : Node :=
  { kind := .linkReference, identifier := some (normalizeLabel label), label := some label, form := some form }

def readLink (label : Text) : Text → Option Construct
  | '(' :: after =>
    (readTarget after).map fun (url, title, rest) =>
      { node := { kind := .link, url := some url, title }, inner := label, rest }
  | _ => none

/-- A full or collapsed reference, after its first label. -/
def readFullReference (label : Text) : Text → Option Construct
  | '[' :: after =>
    if label.isEmpty then none
    else
      (readLabel after).map fun (second, rest) =>
        if second.isEmpty then { node := reference label .collapsed, inner := label, rest }
        else { node := reference second .full, inner := label, rest }
  | _ => none

/-- A reference that is its label alone, after that label. A parenthesis, bracket or colon must not follow. -/
def readShortcut (label rest : Text) : Option Construct :=
  if label.isEmpty || (rest.head?.map fun c => c == '(' || c == '[' || c == ':').getD false then none
  else some { node := reference label .shortcut, inner := label, rest }

def readBracketed (text : Text) : Option Construct := do
  let (label, rest) ← readLabel text
  readLink label rest <|> readFullReference label rest <|> readShortcut label rest

def readConstruct : Text → Option Construct
  | [] => none
  | c :: rest =>
    if c = '[' then readBracketed rest
    else if c = '\x60' then readCodeSpan (c :: rest)
    else none

def findConstruct : Text → Text × Option Construct
  | [] => ([], none)
  | c :: rest =>
    match readConstruct (c :: rest) with
    | some construct => ([], some construct)
    | none =>
      let (before, found) := findConstruct rest
      (c :: before, found)

/-! ## Every reader leaves less than it was given -/

theorem length_of_readLabel {text label rest : Text} (h : readLabel text = some (label, rest)) :
    label.length + rest.length + 1 = text.length := by
  fun_induction readLabel text generalizing label with
  | case1 => simp at h
  | case2 => simp_all
  | case3 => simp at h
  | case4 => simp at h
  | case5 => simp at h
  | case6 c rest' _ ih =>
    simp only [Option.map_eq_some_iff, Prod.exists, Prod.mk.injEq] at h
    obtain ⟨l, r, hr, rfl, rfl⟩ := h
    have := ih hr
    simp only [List.length_cons]
    omega
  | case7 c rest' _ _ _ _ ih =>
    simp only [Option.map_eq_some_iff, Prod.exists, Prod.mk.injEq] at h
    obtain ⟨l, r, hr, rfl, rfl⟩ := h
    have := ih hr
    simp only [List.length_cons]
    omega

theorem length_of_readUntil {close : Char} {text inside rest : Text} (h : readUntil close text = some (inside, rest)) :
    rest.length < text.length := by
  rw [Text.cutAt_eq_some h]
  simp only [List.length_append, List.length_cons]
  omega

theorem length_of_readTitle {text title rest : Text} (h : readTitle text = some (title, rest)) :
    rest.length < text.length := by
  unfold readTitle at h
  split at h
  · exact Nat.lt_succ_of_lt (length_of_readUntil h)
  · exact Nat.lt_succ_of_lt (length_of_readUntil h)
  · exact Nat.lt_succ_of_lt (length_of_readUntil h)
  · simp at h

theorem length_of_readAngled {text inside rest : Text} (h : readAngled text = some (inside, rest)) :
    rest.length < text.length := by
  unfold readAngled at h
  split at h
  · simp only [Option.map_eq_some_iff, Prod.exists, Prod.mk.injEq] at h
    obtain ⟨i, r, hr, _, rfl⟩ := h
    exact Nat.lt_succ_of_lt (length_of_readUntil hr)
  · simp at h

theorem length_dropWhile_le (p : Char → Bool) (text : Text) : (text.dropWhile p).length ≤ text.length :=
  (List.dropWhile_suffix p).length_le

theorem length_of_readTitled {text title rest : Text} (h : readTitled text = some (title, rest)) :
    rest.length < text.length := by
  simp only [readTitled, Option.bind_eq_bind, Option.bind_eq_some_iff, Prod.exists] at h
  obtain ⟨t, after, ht, h⟩ := h
  have h1 := length_of_readTitle ht
  have h2 := length_dropWhile_le isSpaceOrTab text
  have h3 := length_dropWhile_le isSpaceOrTab after
  split at h
  next rest' heq =>
    simp only [Option.some.injEq, Prod.mk.injEq] at h
    obtain ⟨_, rfl⟩ := h
    rw [heq, List.length_cons] at h3
    omega
  next => simp at h

theorem length_of_readTargetEnd {text rest : Text} {title : Option Text}
    (h : readTargetEnd text = some (title, rest)) : rest.length < text.length := by
  unfold readTargetEnd at h
  have h1 := length_dropWhile_le isSpaceOrTab text
  split at h
  next rest' heq =>
    simp only [Option.some.injEq, Prod.mk.injEq] at h
    obtain ⟨_, rfl⟩ := h
    rw [heq, List.length_cons] at h1
    omega
  next =>
    split at h
    · simp only [Option.map_eq_some_iff, Prod.exists, Prod.mk.injEq] at h
      obtain ⟨t, r, hr, _, rfl⟩ := h
      exact length_of_readTitled hr
    · simp at h

theorem length_of_readDestination {text url rest : Text} {title : Option Text}
    (h : readDestination text = some (url, title, rest)) : rest.length < text.length := by
  simp only [readDestination, Option.orElse_eq_orElse, Option.orElse_eq_or, Option.or_eq_some_iff,
    Option.bind_eq_bind, Option.bind_eq_some_iff, Prod.exists, Option.pure_def, Option.some.injEq,
    Prod.mk.injEq] at h
  rcases h with ⟨d, after, hd, t, r, hr, _, _, rfl⟩ | ⟨_, t, r, hr, _, _, rfl⟩
  · have := length_of_readAngled hd
    have := length_of_readTargetEnd hr
    omega
  · have := length_of_readTargetEnd hr
    have := length_dropWhile_le (fun c => !(isBlankChar c || c == ')')) text
    omega

theorem length_of_readTarget {text url rest : Text} {title : Option Text}
    (h : readTarget text = some (url, title, rest)) : rest.length < text.length := by
  simp only [readTarget, Option.orElse_eq_orElse, Option.orElse_eq_or, Option.or_eq_some_iff] at h
  rcases h with h | ⟨_, h⟩
  · exact Nat.lt_of_lt_of_le (length_of_readDestination h) (length_dropWhile_le isSpaceOrTab text)
  · split at h
    · simp only [Option.map_eq_some_iff, Prod.exists, Prod.mk.injEq] at h
      obtain ⟨t, r, hr, _, _, rfl⟩ := h
      exact length_of_readTitled hr
    · simp at h

theorem length_of_readCode {k : Nat} {text code rest : Text} (h : readCode k text = some (code, rest)) :
    rest.length < text.length := by
  fun_induction readCode k text generalizing code with
  | case1 => simp at h
  | case2 c rest' hc =>
    simp only [Option.some.injEq, Prod.mk.injEq] at h
    obtain ⟨_, rfl⟩ := h
    simp only [List.length_drop, List.length_cons]
    omega
  | case3 => simp at h
  | case4 c rest' _ _ ih =>
    simp only [Option.map_eq_some_iff, Prod.exists, Prod.mk.injEq] at h
    obtain ⟨l, r, hr, _, rfl⟩ := h
    exact Nat.lt_succ_of_lt (ih hr)

theorem length_of_readLink {label after : Text} {construct : Construct} (h : readLink label after = some construct) :
    construct.inner = label ∧ construct.rest.length ≤ after.length := by
  unfold readLink at h
  split at h
  next target =>
    simp only [Option.map_eq_some_iff, Prod.exists] at h
    obtain ⟨_, _, _, hr, rfl⟩ := h
    exact ⟨rfl, Nat.le_succ_of_le (Nat.le_of_lt (length_of_readTarget hr))⟩
  next => simp at h

theorem length_of_readFullReference {label after : Text} {construct : Construct}
    (h : readFullReference label after = some construct) : construct.inner = label ∧ construct.rest.length ≤ after.length := by
  unfold readFullReference at h
  split at h
  next second =>
    split at h
    · simp at h
    · simp only [Option.map_eq_some_iff, Prod.exists] at h
      obtain ⟨_, _, hr, h⟩ := h
      have := length_of_readLabel hr
      simp only [List.length_cons]
      split at h <;> subst h <;> exact ⟨rfl, by dsimp only; omega⟩
  next => simp at h

theorem length_of_readShortcut {label after : Text} {construct : Construct} (h : readShortcut label after = some construct) :
    construct.inner = label ∧ construct.rest.length ≤ after.length := by
  unfold readShortcut at h
  split at h
  · simp at h
  · simp only [Option.some.injEq] at h
    subst h
    exact ⟨rfl, Nat.le_refl _⟩

theorem length_of_readBracketed {text : Text} {construct : Construct} (h : readBracketed text = some construct) :
    construct.inner.length < text.length ∧ construct.rest.length < text.length := by
  simp only [readBracketed, Option.bind_eq_bind, Option.bind_eq_some_iff, Prod.exists,
    Option.orElse_eq_orElse, Option.orElse_eq_or, Option.or_eq_some_iff] at h
  obtain ⟨label, after, hlabel, h⟩ := h
  have hlen := length_of_readLabel hlabel
  have parts : construct.inner = label ∧ construct.rest.length ≤ after.length := by
    rcases h with h | ⟨_, h | ⟨_, h⟩⟩
    · exact length_of_readLink h
    · exact length_of_readFullReference h
    · exact length_of_readShortcut h
  rw [parts.1]
  omega

theorem length_of_readCodeSpan {text : Text} {construct : Construct} (h : readCodeSpan text = some construct) :
    construct.inner.length < text.length ∧ construct.rest.length < text.length := by
  obtain ⟨k, _, h⟩ := List.exists_of_findSome?_eq_some h
  simp only [Option.map_eq_some_iff, Prod.exists] at h
  obtain ⟨code, r, hr, rfl⟩ := h
  have := length_of_readCode hr
  simp only [List.length_drop, List.length_nil] at this ⊢
  omega

/-- A construct takes at least one character, and its inner text and the text after it are shorter than the
    text it was read from. -/
theorem length_of_readConstruct {text : Text} {construct : Construct} (h : readConstruct text = some construct) :
    construct.inner.length < text.length ∧ construct.rest.length < text.length := by
  unfold readConstruct at h
  split at h
  · simp at h
  next c rest =>
    split at h
    · obtain ⟨inner, after⟩ := length_of_readBracketed h
      exact ⟨Nat.lt_succ_of_lt inner, Nat.lt_succ_of_lt after⟩
    · split at h
      · exact length_of_readCodeSpan h
      · simp at h

theorem length_of_findConstruct {text before : Text} {construct : Construct}
    (h : findConstruct text = (before, some construct)) :
    construct.inner.length < text.length ∧ construct.rest.length < text.length := by
  fun_induction findConstruct text generalizing before with
  | case1 => simp at h
  | case2 c rest k hk =>
    simp only [Prod.mk.injEq, Option.some.injEq] at h
    obtain ⟨_, rfl⟩ := h
    exact length_of_readConstruct hk
  | case3 c rest _ before' found hfind ih =>
    simp only [Prod.mk.injEq] at h
    obtain ⟨_, rfl⟩ := h
    have := ih hfind
    simp only [List.length_cons]
    omega

/-! ## Nodes -/

def positionAt (line : Option Nat) (column width : Nat) : Option Position :=
  line.map fun line =>
    { startLine := line, startColumn := column, endLine := line, endColumn := column + width }

/-- A text as a node; no node for no text. -/
def textNodes (line : Option Nat) (column : Nat) (text : Text) : List Node :=
  if text.isEmpty then []
  else [{ Node.ofText text with position := positionAt line column text.length }]

/-- The inline nodes of a text that starts at a column of a line. Without a line the nodes have no
    positions. -/
def parse (line : Option Nat) (column : Nat) (text : Text) : List Node :=
  match _h : findConstruct text with
  | (before, none) => textNodes line column before
  | (before, some construct) =>
    let start := column + before.length
    let width := text.length - before.length - construct.rest.length
    textNodes line column before ++
      { construct.node with
        children := parse line (start + 1) construct.inner
        position := positionAt line start width } ::
      parse line (start + width) construct.rest
termination_by text.length
decreasing_by
  · exact (length_of_findConstruct _h).1
  · exact (length_of_findConstruct _h).2

end Inline

end Changelog
