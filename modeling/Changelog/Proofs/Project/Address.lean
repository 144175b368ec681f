import Changelog.Proofs.Project.Hosting
import Changelog.Proofs.Text.Parts

/-! # Spellings of an address

A repository on a host is spelled with a scheme or in the short form of secure shell, with or without a user, a port, the
extension of its path and a slash behind it. All spellings of it have the same browsable address.
-/

namespace Changelog

namespace Text

variable {lead tail text rest : Text} {c : Char}

theorem suffix_of_not_mem {part front back : Text} (h : c ∉ part) (hpart : part <:+ front ++ c :: back) : part <:+ back := by
  rcases List.suffix_or_suffix_of_suffix hpart (List.suffix_append front (c :: back)) with hpart | hpart
  · rcases List.suffix_cons_iff.mp hpart with rfl | hpart
    · exact absurd List.mem_cons_self h
    · exact hpart
  · exact absurd (hpart.subset List.mem_cons_self) h

theorem mem_of_mem_of_dropLeadFolded? (h : dropLeadFolded? lead text = some rest) (hc : c ∈ text) :
    c ∈ rest ∨ ∃ letter ∈ lead, FoldsTo c letter := by
  obtain ⟨front, rfl, forms⟩ := dropLeadFolded?_eq_some_iff.mp h
  rcases List.mem_append.mp hc with hc | hc
  · exact Or.inr (exists_left_of_forall₂ forms.flip hc)
  · exact Or.inl hc

end Text

namespace Hosting

open Text (ofString)

/-! ## Spellings -/

/-- A text of at least one character, all of them of one kind. -/
structure Run (p : Char → Bool) where
  text : Text
  filled : text ≠ []
  alike : ∀ c ∈ text, p c

def extension : Text := ofString ".git"

/-- What may stand behind a path. -/
structure Ending where
  extended : Bool
  closed : Bool
  deriving Repr, DecidableEq

def Ending.text (ending : Ending) : Text :=
  (if ending.extended then extension else []) ++ if ending.closed then ['/'] else []

/-- A repository on a host. The names of its path stand with slashes between them, and the last one does not end with the
    extension. -/
structure Place where
  host : Run isNameChar
  front : List (Run isNameChar)
  last : Run isNameChar
  noExtension : ¬extension <:+ last.text

def Place.path (place : Place) : Text := place.front.flatMap (fun name => name.text ++ ['/']) ++ place.last.text

inductive Scheme where
  | https | http | git | ssh
  deriving Repr, DecidableEq

def Scheme.text : Scheme → Text
  | https => ofString "https"
  | http => ofString "http"
  | git => ofString "git"
  | ssh => ofString "ssh"

def userText : Option (Run isWordChar) → Text
  | none => []
  | some user => user.text ++ ['@']

def portText : Option (Run isDecimalDigit) → Text
  | none => []
  | some port => ':' :: port.text

/-- A way in which the place of a repository is spelled. -/
inductive Spelling where
  /-- With a scheme, and what else an address may hold. -/
  | address (plus : Bool) (scheme : Scheme) (user : Option (Run isWordChar)) (port : Option (Run isDecimalDigit)) (ending : Ending)
  /-- In the short form of secure shell. -/
  | shell (user : Run isWordChar) (ending : Ending)

def Spelling.text (place : Place) : Spelling → Text
  | address plus scheme user port ending =>
    (if plus then ofString "git+" else []) ++ (scheme.text ++ ofString "://" ++ (userText user ++
      (place.host.text ++ (portText port ++ '/' :: (place.path ++ ending.text)))))
  | shell user ending => user.text ++ '@' :: (place.host.text ++ ':' :: (place.path ++ ending.text))

/-! ## Paths -/

/-- A path without slashes around it and without the extension. -/
structure IsBare (path : Text) : Prop where
  filled : path ≠ []
  alike : ∀ c ∈ path, isPathChar c
  first : path.head? ≠ some '/'
  last : path.getLast? ≠ some '/'
  noExtension : ¬extension <:+ path

variable {host path text rest user name owner : Text} {c : Char}

theorem dropEnding?_append {ending : Text} (hne : path ≠ []) : dropEnding? ending (path ++ ending) = some path := by
  rw [dropEnding?, Text.dropTail?_append, Option.filter_some_pos]
  simpa using hne

theorem dropEnding?_eq_none {ending : Text} (h : ¬ending <:+ text) : dropEnding? ending text = none := by
  rw [dropEnding?, Text.dropTail?_eq_none h]
  rfl

theorem not_suffix_of_getLast? {part : Text} (hne : part ≠ []) (h : text.getLast? ≠ part.getLast?) : ¬part <:+ text := by
  rintro ⟨front, rfl⟩
  exact h (List.getLast?_append_of_ne_nil front hne)

theorem isPathChar_of_mem_ending {ending : Ending} (h : c ∈ ending.text) : isPathChar c := by
  have known : ∀ ending : Ending, ∀ c ∈ ending.text, isPathChar c := by
    rintro ⟨_ | _, _ | _⟩ <;> decide
  exact known ending c h

theorem dropExtension_append (h : IsBare path) (ending : Ending) : dropExtension (path ++ ending.text) = path := by
  have letter : extension.getLast? = some 't' := by decide
  have slash : (ofString ".git/").getLast? = some '/' := by decide
  -- what does not end with a slash does not end with the extension and a slash
  have notClosed {text : Text} (hlast : text.getLast? ≠ some '/') : dropEnding? (ofString ".git/") text = none :=
    dropEnding?_eq_none (not_suffix_of_getLast? (by decide) (slash ▸ hlast))
  unfold dropExtension
  rw [← extension]
  obtain ⟨_ | _, _ | _⟩ := ending
  · have open' : dropEnding? ['/'] path = none := dropEnding?_eq_none (not_suffix_of_getLast? (by decide) h.last)
    simp [Ending.text, notClosed h.last, dropEnding?_eq_none h.noExtension, open']
  · have both : dropEnding? (ofString ".git/") (path ++ ['/']) = none := by
      refine dropEnding?_eq_none ?_
      rintro ⟨front, heq⟩
      rw [show ofString ".git/" = extension ++ ['/'] from rfl, ← List.append_assoc] at heq
      exact h.noExtension ⟨front, List.append_cancel_right heq⟩
    have other : dropEnding? extension (path ++ ['/']) = none :=
      dropEnding?_eq_none (not_suffix_of_getLast? (by decide) (by simp [letter]))
    simp [Ending.text, both, other, dropEnding?_append h.filled]
  · have both : dropEnding? (ofString ".git/") (path ++ extension) = none :=
      notClosed (by simp [List.getLast?_append, letter])
    simp [Ending.text, both, dropEnding?_append h.filled]
  · have both : dropEnding? (ofString ".git/") (path ++ (extension ++ ['/'])) = some path := dropEnding?_append h.filled
    simp [Ending.text, both]

theorem readPath_append (h : IsBare path) (ending : Ending) : readPath (path ++ ending.text) = some path := by
  have filled : (path ++ ending.text).isEmpty = false := by simp [h.filled]
  have alike : (path ++ ending.text).all isPathChar := by
    rw [List.all_eq_true]
    intro c hc
    exact (List.mem_append.mp hc).elim (h.alike c) isPathChar_of_mem_ending
  have front : path.dropWhile (· == '/') = path := Text.dropWhile_eq_self fun c hc => by
    simpa using fun same : c = '/' => h.first (same ▸ hc)
  have back : Text.dropTailWhile (· == '/') path = path := Text.dropTailWhile_eq_self fun c hc => by
    simpa using fun same : c = '/' => h.last (same ▸ hc)
  rw [readPath, filled, alike, dropExtension_append h, front, back]
  rfl

/-! ## Users, hosts and ports -/

theorem span_append_cons {p : Char → Bool} (h : ∀ c ∈ text, p c) (hc : p c = false) (rest : Text) :
    (text ++ c :: rest).takeWhile p = text ∧ (text ++ c :: rest).dropWhile p = c :: rest := by
  rw [List.takeWhile_append_of_pos h, List.dropWhile_append_of_pos h]
  simp [hc]

theorem dropPort_append (port : Option (Run isDecimalDigit)) (rest : Text) :
    dropPort (portText port ++ '/' :: rest) = some ('/' :: rest) := by
  cases port with
  | none => rfl
  | some port =>
      obtain ⟨front, back⟩ := span_append_cons port.alike (c := '/') (by decide) rest
      have filled : port.text.isEmpty = false := by simpa using port.filled
      show dropPort (':' :: (port.text ++ '/' :: rest)) = _
      simp only [dropPort, front, back, filled, Bool.false_eq_true, if_false]

theorem readHostPath_append (hne : host ≠ []) (h : ∀ c ∈ host, c ≠ '/' ∧ c ≠ ':') (port : Option (Run isDecimalDigit))
    (rest : Text) : readHostPath (host ++ (portText port ++ '/' :: rest)) = (readPath rest).map (host, ·) := by
  have inside : ∀ c ∈ host, (c != '/' && c != ':') = true := fun c hc => by simpa using h c hc
  obtain ⟨front, back⟩ : (host ++ (portText port ++ '/' :: rest)).takeWhile (fun c => c != '/' && c != ':') = host ∧
      (host ++ (portText port ++ '/' :: rest)).dropWhile (fun c => c != '/' && c != ':') = portText port ++ '/' :: rest := by
    cases port with
    | none => exact span_append_cons inside rfl rest
    | some port => exact span_append_cons inside rfl _
  have filled : host.isEmpty = false := by simpa using hne
  rw [readHostPath, front, back, filled, dropPort_append]
  simp only [Option.bind_eq_bind, Option.bind_some, Text.dropLead?_singleton, Bool.false_eq_true, if_false]
  cases readPath rest <;> rfl

theorem dropUser?_append (hne : user ≠ []) (h : ∀ c ∈ user, c ≠ '@' ∧ c ≠ '/') (rest : Text) :
    dropUser? (user ++ '@' :: rest) = some rest := by
  have front := (span_append_cons (p := fun c => c != '@' && c != '/') (c := '@') (fun c hc => by simpa using h c hc) rfl rest).1
  have filled : user.isEmpty = false := by simpa using hne
  rw [dropUser?, front, filled, List.drop_left]
  exact Text.dropLead?_singleton '@' rest

/-- There is no user where the first at sign stands behind a slash. -/
theorem dropUser?_eq_none (h : ∀ c ∈ text, c ≠ '@' ∧ c ≠ '/') (rest : Text) : dropUser? (text ++ '/' :: rest) = none := by
  have front := (span_append_cons (p := fun c => c != '@' && c != '/') (c := '/') (fun c hc => by simpa using h c hc) rfl rest).1
  rw [dropUser?, front, List.drop_left]
  split <;> rfl

/-! ## Other forms -/

theorem ne_of_kind {p : Char → Bool} {mark : Char} (h : p c) (hmark : p mark = false) : c ≠ mark := by
  rintro rfl
  exact Bool.false_ne_true (hmark.symm.trans h)

theorem mem_of_readName (h : readName text = some (name, rest)) (hc : c ∈ text) : isNameChar c ∨ c ∈ rest := by
  unfold readName at h
  dsimp only at h
  split at h
  · contradiction
  · cases h
    rw [← List.takeWhile_append_dropWhile (p := isNameChar) (l := text), List.mem_append] at hc
    exact hc.imp_left List.mem_takeWhile_imp

theorem not_mem_of_shorthand? (h : shorthand? text = some (owner, name)) : '@' ∉ text := by
  intro hat
  have plain : '@' ∈ (Text.dropLeadFolded? (ofString "github:") text).getD text := by
    cases hlead : Text.dropLeadFolded? (ofString "github:") text with
    | none => exact hat
    | some rest =>
        refine (Text.mem_of_mem_of_dropLeadFolded? hlead hat).resolve_right ?_
        decide
  rw [shorthand?] at h
  simp only [Option.bind_eq_bind, Option.bind_eq_some_iff, Prod.exists] at h
  obtain ⟨_, after, howner, behind, hslash, _, rest, hname, hrest⟩ := h
  have none : rest = [] := by
    split at hrest
    next empty => exact List.isEmpty_iff.mp empty
    next => contradiction
  have hafter := (mem_of_readName howner plain).resolve_left (by decide)
  rw [← List.isPrefixOf?_eq_some_iff_append_eq.mp hslash, List.singleton_append, List.mem_cons] at hafter
  have hbehind := (mem_of_readName hname (hafter.resolve_left (by decide))).resolve_left (by decide)
  rw [none] at hbehind
  contradiction

theorem head?_of_dropScheme? (h : dropScheme? text = some rest) :
    (text.dropWhile isWordChar).head? = some ':' ∨ (text.dropWhile isWordChar).head? = some '+' := by
  unfold dropScheme? at h
  obtain ⟨scheme, hscheme, hrest⟩ := List.exists_of_findSome?_eq_some h
  cases hplus : Text.dropLead? (ofString "git+") text with
  | some plain =>
      rw [← List.isPrefixOf?_eq_some_iff_append_eq.mp hplus]
      exact Or.inr rfl
  | none =>
      rw [hplus, Option.getD_none] at hrest
      rw [← List.isPrefixOf?_eq_some_iff_append_eq.mp hrest]
      simp only [List.mem_cons, List.not_mem_nil, or_false] at hscheme
      rcases hscheme with rfl | rfl | rfl | rfl <;> exact Or.inl rfl

/-! ## Reading a spelling -/

theorem ne_slash_of_mem {name : Run isNameChar} (h : c ∈ name.text) : c ≠ '/' :=
  ne_of_kind (name.alike c h) (by decide)

theorem Place.isBare_path (place : Place) : IsBare place.path where
  filled := List.append_ne_nil_of_right_ne_nil _ place.last.filled
  alike c hc := by
    rw [isPathChar, Bool.or_eq_true, beq_iff_eq]
    rcases List.mem_append.mp hc with hc | hc
    · obtain ⟨name, -, hc⟩ := List.mem_flatMap.mp hc
      exact (List.mem_append.mp hc).imp (name.alike c) List.mem_singleton.mp
    · exact Or.inl (place.last.alike c hc)
  first h := by
    rw [Place.path] at h
    cases hfront : place.front with
    | nil =>
        rw [hfront] at h
        exact ne_slash_of_mem (List.mem_of_mem_head? h) rfl
    | cons name front =>
        rw [hfront, List.flatMap_cons, List.append_assoc, List.append_assoc, List.head?_append_of_ne_nil _ name.filled] at h
        exact ne_slash_of_mem (List.mem_of_mem_head? h) rfl
  last h := by
    rw [Place.path, List.getLast?_append_of_ne_nil _ place.last.filled] at h
    exact ne_slash_of_mem (List.mem_of_mem_getLast? h) rfl
  noExtension h := by
    rw [Place.path] at h
    -- no slash stands in the extension, so that it is the end of the last name
    generalize place.front = front at h
    induction front with
    | nil => exact place.noExtension h
    | cons name front ih =>
        rw [List.flatMap_cons, List.append_assoc, List.append_assoc, List.singleton_append] at h
        exact ih (Text.suffix_of_not_mem (by decide) h)

theorem isNameChar_of_isWordChar (h : isWordChar c) : isNameChar c := by simp [isNameChar, h]

theorem isBlankChar_of_isPathChar (h : isPathChar c) : isBlankChar c = false := by
  rw [isPathChar, Bool.or_eq_true, beq_iff_eq] at h
  rcases h with h | rfl
  · exact isBlankChar_of_isNameChar h
  · decide

theorem isBlankChar_of_getLast? (h : IsBare path) {front : Text} {ending : Ending}
    (hc : c ∈ (front ++ (path ++ ending.text)).getLast?) : isBlankChar c = false := by
  have filled : path ++ ending.text ≠ [] := List.append_ne_nil_of_left_ne_nil h.filled _
  rw [List.getLast?_append_of_ne_nil _ filled] at hc
  refine isBlankChar_of_isPathChar ?_
  exact (List.mem_append.mp (List.mem_of_mem_getLast? hc)).elim (h.alike c) isPathChar_of_mem_ending

theorem address?_address (place : Place) (plus : Bool) (scheme : Scheme) (user : Option (Run isWordChar))
    (port : Option (Run isDecimalDigit)) (ending : Ending) :
    address? ((Spelling.address plus scheme user port ending).text place) = some (place.host.text, place.path) := by
  have host : ∀ c ∈ place.host.text, c ≠ '@' ∧ c ≠ '/' ∧ c ≠ ':' := fun c hc =>
    ⟨ne_of_kind (place.host.alike c hc) (by decide), ne_slash_of_mem hc, ne_of_kind (place.host.alike c hc) (by decide)⟩
  have digits : ∀ c ∈ portText port, c ≠ '@' ∧ c ≠ '/' := by
    cases port with
    | none => exact nofun
    | some port =>
        exact List.forall_mem_cons.mpr ⟨by decide, fun c hc =>
          ⟨ne_of_kind (port.alike c hc) (by decide), ne_of_kind (port.alike c hc) (by decide)⟩⟩
  have found := readHostPath_append place.host.filled (fun c hc => (host c hc).2) port (place.path ++ ending.text)
  rw [readPath_append place.isBare_path] at found
  have dropped : ∀ rest, dropScheme? ((if plus then ofString "git+" else []) ++ (scheme.text ++ ofString "://" ++ rest)) = some rest := by
    intro rest
    cases plus <;> cases scheme <;> rfl
  rw [address?, Spelling.text, dropped]
  cases user with
  | none =>
      have noUser : dropUser? (place.host.text ++ portText port ++ '/' :: (place.path ++ ending.text)) = none :=
        dropUser?_eq_none (fun c hc => (List.mem_append.mp hc).elim (fun hc => ⟨(host c hc).1, (host c hc).2.1⟩) (digits c)) _
      rw [List.append_assoc] at noUser
      simp [userText, noUser, found]
  | some user =>
      have named : ∀ c ∈ user.text, c ≠ '@' ∧ c ≠ '/' := fun c hc =>
        ⟨ne_of_kind (isNameChar_of_isWordChar (user.alike c hc)) (by decide),
          ne_of_kind (isNameChar_of_isWordChar (user.alike c hc)) (by decide)⟩
      simp [userText, dropUser?_append user.filled named, found]

theorem shell?_shell (place : Place) (user : Run isWordChar) (ending : Ending) :
    shell? ((Spelling.shell user ending).text place) = some (place.host.text, place.path) := by
  have hpath := place.isBare_path
  have readUser (rest : Text) : readName (user.text ++ '@' :: rest) = some (user.text, '@' :: rest) :=
    readName_append (fun c hc => isNameChar_of_isWordChar (user.alike c hc)) user.filled rfl
  have readHost (rest : Text) : readName (place.host.text ++ ':' :: rest) = some (place.host.text, ':' :: rest) :=
    readName_append place.host.alike place.host.filled rfl
  have single : (place.path ++ ending.text).startsWith ['/', '/'] = false := by
    obtain ⟨c, rest, hc⟩ := List.exists_cons_of_ne_nil hpath.filled
    have first : c ≠ '/' := fun same => hpath.first (by rw [hc, same]; rfl)
    simp [hc, Text.startsWith, List.isPrefixOf, first.symm]
  simp [shell?, Spelling.text, readUser, readHost, Text.dropLead?_singleton, single, readPath_append hpath]

/-! ## All spellings -/

theorem Spelling.exists_eq_append (place : Place) (spelling : Spelling) :
    ∃ front ending, spelling.text place = front ++ (place.path ++ Ending.text ending) := by
  cases spelling with
  | address plus scheme user port ending =>
      refine ⟨(if plus then ofString "git+" else []) ++ (scheme.text ++ ofString "://" ++ (userText user ++
        (place.host.text ++ (portText port ++ ['/'])))), ending, ?_⟩
      simp [Spelling.text]
  | shell user ending => exact ⟨user.text ++ '@' :: (place.host.text ++ [':']), ending, by simp [Spelling.text]⟩

theorem isBlankChar_of_head?_spelling {place : Place} {spelling : Spelling} (h : c ∈ (spelling.text place).head?) :
    isBlankChar c = false := by
  cases spelling with
  | address plus scheme user port ending => cases plus <;> cases scheme <;> cases h <;> decide
  | shell user ending =>
      rw [Spelling.text, List.head?_append_of_ne_nil _ user.filled] at h
      exact isBlankChar_of_isNameChar (isNameChar_of_isWordChar (user.alike c (List.mem_of_mem_head? h)))

/-- No spelling is the shorthand of another place. -/
theorem shorthand?_spelling (place : Place) (spelling : Spelling) : shorthand? (spelling.text place) = none := by
  cases spelling with
  | address plus scheme user port ending => cases plus <;> cases scheme <;> rfl
  | shell user ending =>
      rw [Option.eq_none_iff_forall_ne_some]
      intro pair h
      exact not_mem_of_shorthand? h (by simp [Spelling.text])

theorem address?_shell (place : Place) (user : Run isWordChar) (ending : Ending) :
    address? ((Spelling.shell user ending).text place) = none := by
  have noScheme : dropScheme? ((Spelling.shell user ending).text place) = none := by
    rw [Option.eq_none_iff_forall_ne_some]
    intro rest h
    have behind : ((Spelling.shell user ending).text place).dropWhile isWordChar = '@' :: (place.host.text ++ ':' ::
        (place.path ++ ending.text)) := (span_append_cons user.alike (by decide) _).2
    rcases head?_of_dropScheme? h with h | h <;> simp [behind] at h
  rw [address?, noScheme]
  rfl

/-- Every spelling of a place, with white space around it, has the browsable address of the place. -/
theorem url?_spelling {lead tail : Text} (hlead : ∀ c ∈ lead, isBlankChar c) (htail : ∀ c ∈ tail, isBlankChar c) (place : Place)
    (spelling : Spelling) :
    url? (lead ++ spelling.text place ++ tail) = some (ofString "https://" ++ place.host.text ++ '/' :: place.path) := by
  have trimmed : Text.strip (lead ++ spelling.text place ++ tail) = spelling.text place := by
    refine Text.strip_between hlead htail (fun c => isBlankChar_of_head?_spelling) fun c hc => ?_
    obtain ⟨front, ending, heq⟩ := spelling.exists_eq_append place
    exact isBlankChar_of_getLast? place.isBare_path (heq ▸ hc)
  have found : (address? (spelling.text place) <|> shell? (spelling.text place)) = some (place.host.text, place.path) := by
    cases spelling with
    | address plus scheme user port ending => rw [address?_address]; rfl
    | shell user ending => rw [address?_shell, shell?_shell]; rfl
  rw [url?, trimmed]
  simp only [shorthand?_spelling, found]
  rfl

def samplePlace : Place where
  host := ⟨ofString "git.example-1.com", by decide, by decide⟩
  front := [⟨ofString "group.git", by decide, by decide⟩]
  last := ⟨ofString "re.po-2", by decide, by decide⟩
  noExtension := by decide

theorem url?_spelling_sample : (∀ c ∈ ofString " \t", isBlankChar c) ∧ (∀ c ∈ ofString "\n", isBlankChar c) ∧
    url? (ofString " \tgit+ssh://me@git.example-1.com:22/group.git/re.po-2.git/\n") =
      some (ofString "https://git.example-1.com/group.git/re.po-2") :=
  have lead : ∀ c ∈ ofString " \t", isBlankChar c := by decide
  have tail : ∀ c ∈ ofString "\n", isBlankChar c := by decide
  ⟨lead, tail, url?_spelling lead tail samplePlace (.address true .ssh (some ⟨ofString "me", by decide, by decide⟩)
    (some ⟨ofString "22", by decide, by decide⟩) ⟨true, true⟩)⟩

end Hosting

end Changelog
