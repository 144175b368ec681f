import Changelog.Proofs.Markdown.Constructs

/-! # Inline content that is read as it is written

Inline content is written in one way, whatever way it was read from: links without angle brackets and with double
quotes, code between one or two backticks. Where each construct is one that can be written in this way, and nothing in
front of it can begin another one, the nodes come back.
-/

namespace Changelog.Inline

variable {text label before after rest url : Text} {title : Option Text} {construct : Construct}

/-! ## Targets -/

/-- The target of a link that can be written: the destination needs no angle brackets, and a title is neither empty nor
    without a destination, and holds no double quote. -/
structure IsTarget (url : Text) (title : Option Text) : Prop where
  filled : ∀ c ∈ url, isBlankChar c = false ∧ c ≠ ')'
  unopened : url.head? ≠ some '<'
  titled : ∀ t ∈ title, t ≠ [] ∧ '\x22' ∉ t ∧ url ≠ []

theorem readTargetEnd_titleText (titled : ∀ t ∈ title, t ≠ [] ∧ '\x22' ∉ t) (rest : Text) :
    readTargetEnd (titleText title ++ ')' :: rest) = some (title, rest) := by
  cases title with
  | none => rfl
  | some t =>
      obtain ⟨filled, quote⟩ := titled t rfl
      have written : titleText (some t) ++ ')' :: rest = ' ' :: '\x22' :: (t ++ '\x22' :: ')' :: rest) := by
        simp [titleText, Node.orEmpty, filled]
      have dropped : (' ' :: '\x22' :: (t ++ '\x22' :: ')' :: rest)).dropWhile isSpaceOrTab =
          '\x22' :: (t ++ '\x22' :: ')' :: rest) := rfl
      have titled : readTitled (' ' :: '\x22' :: (t ++ '\x22' :: ')' :: rest)) = some (t, rest) := by
        have hread : readTitle ('\x22' :: (t ++ '\x22' :: ')' :: rest)) = some (t, ')' :: rest) :=
          readUntil_append quote (')' :: rest)
        rw [readTitled, dropped, hread]
        rfl
      rw [written, readTargetEnd, dropped, titled]
      rfl

theorem stop_target (title : Option Text) (rest : Text) :
    (titleText title ++ ')' :: rest).takeWhile (fun c => !(isBlankChar c || c == ')')) = [] ∧
      (titleText title ++ ')' :: rest).dropWhile (fun c => !(isBlankChar c || c == ')')) = titleText title ++ ')' :: rest := by
  have blank : isBlankChar ' ' := by decide
  rw [titleText]
  split <;> simp [blank]

theorem IsTarget.exists_first (h : IsTarget url title) (rest : Text) :
    ∃ c tail, url ++ (titleText title ++ ')' :: rest) = c :: tail ∧ isSpaceOrTab c = false ∧ c ≠ '<' := by
  cases url with
  | nil =>
      cases title with
      | none => exact ⟨')', rest, rfl, by decide, by decide⟩
      | some t => exact absurd rfl (h.titled t rfl).2.2
  | cons c url =>
      refine ⟨c, _, rfl, ?_, fun hc => h.unopened (by rw [hc]; rfl)⟩
      exact isSpaceOrTab_eq_false (h.filled c List.mem_cons_self).1

theorem IsTarget.readTarget_eq (h : IsTarget url title) (rest : Text) :
    readTarget (url ++ (titleText title ++ ')' :: rest)) = some (url, title, rest) := by
  have inside : ∀ c ∈ url, (!(isBlankChar c || c == ')')) = true := fun c hc => by simp [h.filled c hc]
  have behind := readTargetEnd_titleText (fun t ht => ⟨(h.titled t ht).1, (h.titled t ht).2.1⟩) rest
  obtain ⟨c, tail, htext, hblank, hopen⟩ := h.exists_first rest
  have dropped : (c :: tail).dropWhile isSpaceOrTab = c :: tail := List.dropWhile_cons_of_neg (by simp [hblank])
  have unangled : readAngled (c :: tail) = none := by simp [readAngled, hopen]
  have hread : readDestination (c :: tail) = some (url, title, rest) := by
    rw [readDestination, unangled, ← htext]
    dsimp only
    rw [List.takeWhile_append_of_pos inside, List.dropWhile_append_of_pos inside, (stop_target title rest).1,
      (stop_target title rest).2, List.append_nil, behind, dropAngles_of_head h.unopened]
    rfl
  rw [htext, readTarget, dropped, hread]
  rfl

/-! ## Constructs and what stands in front of them -/

/-- Does nothing begin in front of a construct, whatever it is? A bracket there does not if the bracket of the construct
    comes before anything that could close its label. -/
def IsIdle (before : Text) (bracketed : Bool) : Prop :=
  '\x60' ∉ before ∧ ('[' ∈ before → bracketed ∧ ']' ∉ before ∧ '\x5c' ∉ before)

/-- Code that can be written between two backticks: it begins with none, and two close it nowhere else. -/
def IsFenced (code : Text) : Prop := code.head? ≠ some '\x60' ∧ readCode 2 (code ++ ticks 2) = some (code, [])

/-- Constructs that are written as they can be read. The key of a reference that is not full is its label, which has to
    stay as it is. -/
structure Construct.IsSteady (construct : Construct) : Prop where
  code : construct.node.kind = .inlineCode → '\x60' ∈ Node.orEmpty construct.node.value →
    IsFenced (Node.orEmpty construct.node.value)
  link : construct.node.kind = .link → IsTarget (Node.orEmpty construct.node.url) construct.node.title
  named : construct.node.kind = .linkReference → construct.node.form ≠ some .full → written construct.inner = construct.inner

/-- Texts that are written as they can be read: nothing is written in another way, or it is all of steady constructs with
    nothing that could begin in front of them. -/
inductive IsRewritable : Text → Prop
  | kept {text : Text} : written text = text → IsRewritable text
  | found {text before : Text} {construct : Construct} : findConstruct text = (before, some construct) →
      IsIdle before (construct.node.kind ≠ .inlineCode) → construct.IsSteady → IsRewritable construct.inner →
      IsRewritable construct.rest → IsRewritable text

theorem readLabel_of_bracket (hclose : ']' ∉ before) (hescape : '\x5c' ∉ before) (after : Text) :
    readLabel (before ++ '[' :: after) = none := by
  induction before with
  | nil => rfl
  | cons c before ih =>
      obtain ⟨hc, hclose⟩ := List.ne_and_not_mem_of_not_mem_cons hclose
      obtain ⟨hc', hescape⟩ := List.ne_and_not_mem_of_not_mem_cons hescape
      have later := ih hclose hescape
      rw [List.cons_append, readLabel.eq_def]
      split <;> simp_all

/-- A construct behind an idle text is the first one. -/
theorem findConstruct_of_isIdle {bracketed : Bool} (idle : IsIdle before bracketed)
    (hafter : bracketed → after.head? = some '[') (h : readConstruct after = some construct) :
    findConstruct (before ++ after) = (before, some construct) := by
  induction before with
  | nil =>
      cases after with
      | nil => simp [readConstruct] at h
      | cons c after => rw [List.nil_append, findConstruct, h]
  | cons c before ih =>
      obtain ⟨hc, hcode⟩ := List.ne_and_not_mem_of_not_mem_cons idle.1
      have nothing : readConstruct (c :: (before ++ after)) = none := by
        rw [readConstruct]
        split
        next hopen =>
          obtain ⟨hbracketed, hclose, hescape⟩ := idle.2 (by simp [hopen])
          obtain ⟨after, rfl⟩ := List.head?_eq_some_iff.mp (hafter hbracketed)
          rw [readBracketed, readLabel_of_bracket (List.not_mem_of_not_mem_cons hclose)
            (List.not_mem_of_not_mem_cons hescape)]
          rfl
        next => rw [if_neg hc.symm]
      have later := ih ⟨hcode, fun hmem => (idle.2 (List.mem_cons_of_mem c hmem)).imp_right fun h =>
        ⟨List.not_mem_of_not_mem_cons h.1, List.not_mem_of_not_mem_cons h.2⟩⟩
      rw [List.cons_append, findConstruct, nothing, later]

/-- The construct as it is read again. -/
def Construct.again (construct : Construct) : Construct :=
  { construct with inner := written construct.inner, rest := written construct.rest }

theorem written_nil : written [] = [] := written_of_none rfl

theorem written_ne_nil (h : text ≠ []) : written text ≠ [] := by
  intro hnil
  have := head?_written text
  rw [hnil, List.head?_nil] at this
  exact h (List.head?_eq_none_iff.mp this.symm)

theorem readConstruct_ticks {k : Nat} (positive : 1 ≤ k) (text : Text) :
    readConstruct (ticks k ++ text) = readCodeSpan (ticks k ++ text) := by
  obtain ⟨n, rfl⟩ := Nat.exists_eq_add_of_le' positive
  simp [readConstruct, ticks, List.replicate_succ]

theorem readCode_fence {k : Nat} {code other : Text} (h : readCode k text = some (code, rest))
    (fenced : '\x60' ∈ code → IsFenced code)
    (stops : other.head? ≠ some '\x60') :
    code.head? ≠ some '\x60' ∧ readCode (fence code) (code ++ (ticks (fence code) ++ other)) = some (code, other) := by
  rw [fence]
  split
  next hmem => exact ⟨(fenced hmem).1, readCode_congr (fenced hmem).2 stops⟩
  next plain =>
    refine ⟨fun hhead => plain ?_, readCode_one h plain stops⟩
    obtain ⟨inside, rfl⟩ := List.head?_eq_some_iff.mp hhead
    exact List.mem_cons_self

/-- A steady construct is read again in front of what is written for the text behind it. -/
theorem readConstruct_inlineText_whole (h : IsRead text construct) (steady : construct.IsSteady) :
    readConstruct (construct.whole.inlineText ++ written construct.rest) = some construct.again := by
  -- constructs with brackets are read as they stand
  have bracketed : ∀ {line : Text}, construct.whole.inlineText ++ written construct.rest = line → IsRead line construct.again →
      construct.node.kind ≠ .inlineCode →
      readConstruct (construct.whole.inlineText ++ written construct.rest) = some construct.again := by
    rintro _ rfl again hkind
    exact readConstruct_of_isRead again hkind
  cases h with
  | @code k code rest positive stops hread =>
      have stops : (written rest).head? ≠ some '\x60' := head?_written rest ▸ stops
      obtain ⟨opens, hcode⟩ := readCode_fence hread (steady.code rfl) stops
      rw [inlineText_code, List.append_assoc, List.append_assoc, readConstruct_ticks (fence_pos code),
        readCodeSpan_ticks (fence_pos code) opens hcode, Construct.again, written_nil]
  | @link label target url rest title hlabel htarget =>
      have target : IsTarget url title := steady.link rfl
      exact bracketed (by rw [inlineText_link]; simp) (IsRead.link hlabel.written (target.readTarget_eq (written rest))) nofun
  | @full label second rest hlabel hne hsecond filled =>
      exact bracketed (by rw [inlineText_full filled]; simp)
        (IsRead.full hlabel.written (written_ne_nil hne) hsecond filled) nofun
  | @collapsed label rest hlabel hne =>
      have kept : written label = label := steady.named rfl nofun
      have isRead : IsRead ('[' :: (label ++ ']' :: '[' :: ']' :: written rest))
          (Construct.again { node := reference label .collapsed, inner := label, rest }) := by
        rw [Construct.again]
        dsimp only
        rw [kept]
        exact .collapsed hlabel hne
      refine bracketed ?_ isRead nofun
      rw [inlineText_collapsed, kept]
      simp
  | @shortcut label rest hlabel hne next =>
      have kept : written label = label := steady.named rfl nofun
      have isRead : IsRead ('[' :: (label ++ ']' :: written rest))
          (Construct.again { node := reference label .shortcut, inner := label, rest }) := by
        rw [Construct.again]
        dsimp only
        rw [kept]
        exact .shortcut hlabel hne (head?_written rest ▸ next)
      refine bracketed ?_ isRead nofun
      rw [inlineText_shortcut, kept]
      simp

theorem head?_inlineText_whole (h : IsRead text construct) (bracketed : construct.node.kind ≠ .inlineCode) (rest : Text) :
    (construct.whole.inlineText ++ rest).head? = some '[' := by
  cases h with
  | code => exact absurd rfl bracketed
  | link => rw [inlineText_link]; rfl
  | full _ _ _ filled => rw [inlineText_full filled]; rfl
  | collapsed => rw [inlineText_collapsed]; rfl
  | shortcut => rw [inlineText_shortcut]; rfl

theorem IsRewritable.parse_written (h : IsRewritable text) : parse none 1 (written text) = parse none 1 text := by
  induction h with
  | kept same => rw [same]
  | @found text before construct hfind idle steady _ _ ihInner ihRest =>
      obtain ⟨after, rfl, hread⟩ := exists_of_findConstruct hfind
      have isRead := isRead_of_readConstruct hread
      have again : findConstruct (written (before ++ after)) = (before, some construct.again) := by
        rw [written_of_some hfind]
        exact findConstruct_of_isIdle idle (fun bracketed => head?_inlineText_whole isRead (by simpa using bracketed) _)
          (readConstruct_inlineText_whole isRead steady)
      rw [parse_of_none_place again, parse_of_none_place hfind, Construct.whole, Construct.whole, Construct.again]
      dsimp only
      rw [ihInner, ihRest]

/-- A text that can be written as it can be read has the same nodes when it is written and read again. -/
theorem parse_inlineTextAll_parse (h : IsRewritable text) :
    parse none 1 (Node.inlineTextAll (parse none 1 text)) = parse none 1 text := h.parse_written

section

open Text (ofString)

def rewritableText : Text := ofString "Fix [the ```f``` bug](<u/v>  'at last') of [it][x] and ```a`b```"

theorem parse_inlineTextAll_parse_sample : IsRewritable rewritableText ∧
    written rewritableText = ofString "Fix [the `f` bug](u/v \x22at last\x22) of [it][x] and ``a`b``" ∧
    parse none 1 (Node.inlineTextAll (parse none 1 rewritableText)) = parse none 1 rewritableText := by
  have label : IsRewritable (ofString "the ```f``` bug") := by
    have found : findConstruct (ofString "the ```f``` bug") =
        (ofString "the ", some { node := codeNode ['f'], rest := ofString " bug" }) := by decide +kernel
    exact .found found ⟨by decide, by decide⟩ ⟨fun _ h => absurd h (by decide), nofun, nofun⟩ (.kept (by decide +kernel))
      (.kept (by decide +kernel))
  have code : IsRewritable (ofString " and ```a`b```") := by
    have found : findConstruct (ofString " and ```a`b```") =
        (ofString " and ", some { node := codeNode (ofString "a`b"), rest := [] }) := by decide +kernel
    exact .found found ⟨by decide, by decide⟩ ⟨fun _ _ => ⟨by decide, by decide⟩, nofun, nofun⟩ (.kept (by decide +kernel))
      (.kept (by decide +kernel))
  have rest : IsRewritable (ofString " of [it][x] and ```a`b```") := by
    have found : findConstruct (ofString " of [it][x] and ```a`b```") =
        (ofString " of ", some
          { node := reference ['x'] .full, inner := ofString "it", rest := ofString " and ```a`b```" }) := by decide +kernel
    exact .found found ⟨by decide, by decide⟩ ⟨nofun, nofun, fun _ h => absurd rfl h⟩ (.kept (by decide +kernel)) code
  have whole : IsRewritable rewritableText := by
    have found : findConstruct rewritableText =
        (ofString "Fix ", some
          { node := linkNode (ofString "u/v") (some (ofString "at last")), inner := ofString "the ```f``` bug"
            rest := ofString " of [it][x] and ```a`b```" }) := by decide +kernel
    have target : IsTarget (ofString "u/v") (some (ofString "at last")) :=
      ⟨by decide, by decide, by rintro _ ⟨⟩; decide⟩
    exact .found found ⟨by decide, by decide⟩ ⟨nofun, fun _ => target, nofun⟩ label rest
  exact ⟨whole, by decide +kernel, parse_inlineTextAll_parse whole⟩

/-- A destination with a blank and a title with a double quote make a link text, two backticks inside code end it, and a
    backtick in front of code begins it. -/
theorem parse_inlineTextAll_differs :
    parse none 1 (Node.inlineTextAll (parse none 1 (ofString "[a](<b c>)"))) ≠ parse none 1 (ofString "[a](<b c>)") ∧
      parse none 1 (Node.inlineTextAll (parse none 1 (ofString "[a](b 'x\x22y')"))) ≠
        parse none 1 (ofString "[a](b 'x\x22y')") ∧
      parse none 1 (Node.inlineTextAll (parse none 1 (ofString "```a``b```"))) ≠ parse none 1 (ofString "```a``b```") ∧
      parse none 1 (Node.inlineTextAll (parse none 1 (ofString "` ```a```"))) ≠ parse none 1 (ofString "` ```a```") := by
  decide +kernel

end

end Changelog.Inline
