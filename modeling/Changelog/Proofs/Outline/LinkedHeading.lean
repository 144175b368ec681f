import Changelog.Proofs.Markdown.Plain
import Changelog.Proofs.Markdown.Standing
import Changelog.Proofs.Outline.Layout
import Changelog.Proofs.Outline.Unreleased

/-! # Linked headings say the same

A version may be written in brackets, which makes a link reference of it. The release says the same then, since a label
is read as it is written and the date behind it is split off in the same way. A plain heading is read as a whole, though:
it is searched for the word for what is not released yet, and it is split where the separator stands first.
-/

namespace Changelog

/-! ## The first heading of a document -/

theorem Document.exists_parse_headingLine {content : Text} (unbroken : content.IsUnbroken) (below : Text) : ∃ heading nodes,
    (parse (headingLine 2 content ++ '\n' :: below)).children = heading :: nodes ∧ heading.headingDepth? = some 2 ∧
      Node.withoutPositionsAll heading.children = Node.withoutPositionsAll
        (Inline.parse none 1 (LineForm.dropClosing (content.dropWhile isSpaceOrTab))) := by
  obtain ⟨column, hform⟩ := @LineForm.ofLine_headingLine 2 content (by decide) (by decide)
  have hread : Block.read (headingLine 2 content) (Text.lines below) =
      (.atx ⟨2, column, LineForm.dropClosing (content.dropWhile isSpaceOrTab)⟩, 0) := by
    rw [Block.read, hform]
  have hlines : Text.lines (headingLine 2 content ++ '\n' :: below) = headingLine 2 content :: Text.lines below := by
    rw [Text.lines_append, Text.lines_of_isUnbroken (isUnbroken_headingLine 2 unbroken), List.singleton_append]
  have hblocks := Block.ofLinesFrom_cons (@LineForm.isBlank_headingLine 2 content (by decide)) 1 (Text.lines below)
  rw [hread] at hblocks
  let block : Block := ⟨1, [headingLine 2 content], .atx ⟨2, column, LineForm.dropClosing (content.dropWhile isSpaceOrTab)⟩⟩
  refine ⟨block.node, (Block.ofLinesFrom 2 0 (Text.lines below)).map Block.node, ?_, rfl, ?_⟩
  · rw [parse, hlines, ofLines, Block.ofLines, hblocks]
    rfl
  · show Node.withoutPositionsAll (Inline.parse (some 1) column _) = _
    exact Inline.withoutPositionsAll_parse ..

namespace Outline

theorem exists_releases_cons {heading : Node} (hdepth : heading.headingDepth? = some 2) (nodes : List Node) :
    ∃ r later, (ofNodes (heading :: nodes)).releases = r :: later ∧
      r.toReleaseHeading = ReleaseHeading.ofNodes heading.children := by
  have unnamed : heading.isNamed = false := by
    rw [Bool.eq_false_iff]
    intro named
    rw [Node.headingDepth?_of_isNamed named] at hdepth
    contradiction
  have releases : (Layout.ofNodes (heading :: nodes)).releases =
      ⟨heading, (Stretch.cut (nodes.filter (!·.isNamed))).1⟩ :: (Stretch.cut (nodes.filter (!·.isNamed))).2 := by
    simp [Layout.ofNodes, unnamed, Layout.ofUnnamed, hdepth, Stretch.cutFirst]
  rw [ofNodes_eq_ofLayout, ofLayout, releases, List.mapIdx_cons]
  exact ⟨_, _, rfl, rfl⟩

def releasesUnder (content below : Text) : List Release :=
  (ofNodes (Document.parse (headingLine 2 content ++ '\n' :: below)).children).releases

theorem exists_releasesUnder {content : Text} (unbroken : content.IsUnbroken) (below : Text) :
    ∃ r later, releasesUnder content below = r :: later ∧ r.toReleaseHeading = ReleaseHeading.ofNodes
      (Node.withoutPositionsAll (Inline.parse none 1 (LineForm.dropClosing (content.dropWhile isSpaceOrTab)))) := by
  obtain ⟨heading, nodes, hnodes, hdepth, hchildren⟩ := Document.exists_parse_headingLine unbroken below
  obtain ⟨r, later, hreleases, said⟩ := exists_releases_cons hdepth nodes
  rw [← hnodes] at hreleases
  refine ⟨r, later, hreleases, ?_⟩
  rw [said, ← ReleaseHeading.ofNodes_withoutPositions, hchildren]

end Outline

/-! ## Versions and dates -/

namespace ReleaseHeading

open Text Outline

variable {version date : Text}

/-- A version or a date of a heading: there is no white space around it, and it holds neither the separator nor a character
    that constructs are made with. -/
structure IsPart (text : Text) : Prop where
  filled : text ≠ []
  first : ∀ c ∈ text.head?, isBlankChar c = false
  last : ∀ c ∈ text.getLast?, isBlankChar c = false
  unsplit : ¬dateSeparator <:+: text
  bare : Inline.IsBare text

theorem isPart_iff (text : Text) : (text.isEmpty = false ∧ text.head?.all (!isBlankChar ·) = true ∧
    text.getLast?.all (!isBlankChar ·) = true ∧ contains dateSeparator text = false ∧ Inline.IsBare text) ↔ IsPart text := by
  have unsplit : contains dateSeparator text = false ↔ ¬dateSeparator <:+: text := by
    rw [← contains_iff, Bool.not_eq_true]
  simp only [Option.all_eq_true, Bool.not_eq_true', unsplit, List.isEmpty_eq_false_iff]
  exact ⟨fun ⟨filled, first, last, unsplit, bare⟩ => ⟨filled, first, last, unsplit, bare⟩,
    fun ⟨filled, first, last, unsplit, bare⟩ => ⟨filled, first, last, unsplit, bare⟩⟩

instance (text : Text) : Decidable (IsPart text) := decidable_of_iff _ (isPart_iff text)

/-- A version and a date as which a plain heading is read: they stand on one line, neither speaks of what is not released
    yet, the version does not end as the separator begins, and the date is not taken for the closing run of the heading. -/
structure IsPlainlyRead (version date : Text) : Prop where
  unbroken : version.IsUnbroken ∧ date.IsUnbroken
  released : saysUnreleased version = false ∧ saysUnreleased date = false
  ending : ¬[' ', '-'] <:+ version
  other : ∃ c ∈ date, c ≠ '#'

namespace IsPart

variable {text : Text}

theorem exists_cons (h : IsPart text) : ∃ c rest, text = c :: rest ∧ isSpaceOrTab c = false := by
  obtain ⟨c, rest, rfl⟩ := List.exists_cons_of_ne_nil h.filled
  exact ⟨c, rest, rfl, isSpaceOrTab_eq_false (h.first c rfl)⟩

theorem dropTailWhile_eq (h : IsPart text) : dropTailWhile isSpaceOrTab text = text :=
  dropTailWhile_eq_self fun c hc => isSpaceOrTab_eq_false (h.last c hc)

/-- Only a date is cut at its end, and only if there is more than the closing run of the heading. -/
theorem dropClosing_append (h : IsPart text) (other : ∃ c ∈ text, c ≠ '#') (front : Text) :
    LineForm.dropClosing (front ++ text) = front ++ LineForm.dropClosing text := by
  obtain ⟨c, rest, rfl, filled⟩ := h.exists_cons
  exact LineForm.dropClosing_append filled h.dropTailWhile_eq other front

theorem isUnsplit_dropClosing (h : IsPart text) : IsUnsplit dateSeparator (LineForm.dropClosing text) :=
  isUnsplit_of_not_infix fun inside => h.unsplit (inside.trans (LineForm.dropClosing_isInfix text))

theorem isBare_dropClosing (h : IsPart text) : Inline.IsBare (LineForm.dropClosing text) :=
  fun c hc => h.bare c ((LineForm.dropClosing_isInfix text).subset hc)

theorem not_infix_append (h : IsPart text) (ending : ¬[' ', '-'] <:+ text) :
    ¬dateSeparator <:+: text ++ dateSeparator.dropLast := by
  intro inside
  have whole : text ++ dateSeparator.dropLast = text ++ [' '] ++ ['-'] := by
    rw [List.append_assoc]
    rfl
  rw [whole] at inside
  rcases List.infix_concat_iff.mp inside with ⟨front, ends⟩ | inside
  · have ends' : front ++ [' ', '-'] ++ [' '] = text ++ [' '] ++ ['-'] := (List.append_assoc ..).trans ends
    exact absurd (List.append_inj_right' ends' rfl) (by decide)
  · rcases List.infix_concat_iff.mp inside with ⟨front, ends⟩ | inside
    · have ends' : front ++ [' ', '-'] ++ [' '] = text ++ [' '] := (List.append_assoc ..).trans ends
      exact ending ⟨front, List.append_inj_left' ends' rfl⟩
    · exact h.unsplit inside

end IsPart

/-! ## Both headings -/

def plainContent (version date : Text) : Text := version ++ (dateSeparator ++ date)

def linkedContent (version date : Text) : Text := '[' :: version ++ ']' :: (dateSeparator ++ date)

theorem isUnbroken_contents (hversion : version.IsUnbroken) (hdate : date.IsUnbroken) :
    (plainContent version date).IsUnbroken ∧ (linkedContent version date).IsUnbroken := by
  have separator : dateSeparator.IsUnbroken := by decide
  simp [plainContent, linkedContent, hversion, hdate, separator, show isLineEnd '[' = false by decide,
    show isLineEnd ']' = false by decide]

theorem ofNodes_plainContent (hversion : IsPart version) (hdate : IsPart date) (plainly : IsPlainlyRead version date) :
    ofNodes (Node.withoutPositionsAll
        (Inline.parse none 1 (LineForm.dropClosing ((plainContent version date).dropWhile isSpaceOrTab)))) =
      { version := some version, date := some (LineForm.dropClosing date),
        title := some (plainContent version (LineForm.dropClosing date)), isParseable := true } := by
  have kept : (plainContent version date).dropWhile isSpaceOrTab = version ++ dateSeparator ++ date := by
    obtain ⟨c, rest, rfl, filled⟩ := hversion.exists_cons
    rw [plainContent, List.cons_append, List.dropWhile_cons_of_neg (by simp [filled])]
    simp
  have cut : LineForm.dropClosing (version ++ dateSeparator ++ date) = plainContent version (LineForm.dropClosing date) := by
    rw [hdate.dropClosing_append plainly.other, plainContent, List.append_assoc]
  have bare : Inline.IsBare (plainContent version (LineForm.dropClosing date)) := by
    have separator : Inline.IsBare dateSeparator := by decide
    refine List.forall_mem_append.mpr ⟨hversion.bare, List.forall_mem_append.mpr ⟨separator, hdate.isBare_dropClosing⟩⟩
  have said : saysUnreleased (plainContent version (LineForm.dropClosing date)) = false := by
    rw [plainContent, saysUnreleased_separated, plainly.released.1, Bool.false_or, Bool.eq_false_iff]
    intro speaks
    have dated := saysUnreleased_of_infix (LineForm.dropClosing_isInfix date) speaks
    rw [plainly.released.2] at dated
    contradiction
  rw [kept, cut, Inline.parse_of_isBare bare,
        Inline.withoutPositionsAll_textNodes_of_ne_nil (by simp [plainContent, hversion.filled])]
  exact ofNodes_separated said (hversion.not_infix_append plainly.ending) hdate.isUnsplit_dropClosing

theorem ofNodes_linkedContent (hversion : IsPart version) (hdate : IsPart date) (other : ∃ c ∈ date, c ≠ '#') :
    ofNodes (Node.withoutPositionsAll
        (Inline.parse none 1 (LineForm.dropClosing ((linkedContent version date).dropWhile isSpaceOrTab)))) =
      { version := some version, date := some (LineForm.dropClosing date), link := some .linkReference,
        isParseable := true } := by
  have kept : (linkedContent version date).dropWhile isSpaceOrTab = '[' :: version ++ ']' :: dateSeparator ++ date := by
    rw [linkedContent, List.cons_append, List.dropWhile_cons_of_neg (by decide)]
    simp
  have cut : LineForm.dropClosing ('[' :: version ++ ']' :: dateSeparator ++ date) =
      '[' :: version ++ ']' :: ' ' :: ('-' :: ' ' :: LineForm.dropClosing date) := by
    rw [hdate.dropClosing_append other, List.append_assoc]
    rfl
  have bare : Inline.IsBare ('-' :: ' ' :: LineForm.dropClosing date) :=
    List.forall_mem_cons.mpr ⟨by decide, List.forall_mem_cons.mpr ⟨by decide, hdate.isBare_dropClosing⟩⟩
  rw [kept, cut, Inline.withoutPositionsAll_parse_of_isBare hversion.bare hversion.filled bare]
  exact ofNodes_linked hdate.isUnsplit_dropClosing

/-- A plain heading and one with a linked version open releases of the same version and date. -/
theorem linked_heading_agrees (hversion : IsPart version) (hdate : IsPart date) (plainly : IsPlainlyRead version date)
    (below : Text) : ∃ plain linked plainLater linkedLater,
      releasesUnder (plainContent version date) below = plain :: plainLater ∧
        releasesUnder (linkedContent version date) below = linked :: linkedLater ∧
        linked.version = plain.version ∧ linked.date = plain.date ∧ linked.isParseable = plain.isParseable ∧
        plain.version = some version ∧ plain.date = some (LineForm.dropClosing date) ∧ plain.isParseable := by
  obtain ⟨hplain, hlinked⟩ := isUnbroken_contents plainly.unbroken.1 plainly.unbroken.2
  obtain ⟨plain, plainLater, plainReleases, plainSaid⟩ := exists_releasesUnder hplain below
  obtain ⟨linked, linkedLater, linkedReleases, linkedSaid⟩ := exists_releasesUnder hlinked below
  rw [ofNodes_plainContent hversion hdate plainly] at plainSaid
  rw [ofNodes_linkedContent hversion hdate plainly.other] at linkedSaid
  refine ⟨plain, linked, plainLater, linkedLater, plainReleases, linkedReleases, ?_⟩
  rw [plainSaid, linkedSaid]
  exact ⟨rfl, rfl, rfl, rfl, rfl, rfl⟩

theorem linked_heading_agrees_sample :
    IsPart (ofString "1.0.0-rc.1 (beta)") ∧ IsPart (ofString "- 2024-01-01 ##") ∧
      IsPlainlyRead (ofString "1.0.0-rc.1 (beta)") (ofString "- 2024-01-01 ##") ∧
      ∃ plain linked plainLater linkedLater,
        releasesUnder (ofString "1.0.0-rc.1 (beta) - - 2024-01-01 ##") (ofString "- x\n\n## 0.1.0") = plain :: plainLater ∧
          releasesUnder (ofString "[1.0.0-rc.1 (beta)] - - 2024-01-01 ##") (ofString "- x\n\n## 0.1.0") = linked :: linkedLater ∧
          linked.version = plain.version ∧ linked.date = plain.date ∧ linked.isParseable = plain.isParseable ∧
          plain.version = some (ofString "1.0.0-rc.1 (beta)") ∧ plain.date = some (ofString "- 2024-01-01") ∧
          plain.isParseable := by
  have hversion : IsPart (ofString "1.0.0-rc.1 (beta)") := by decide +kernel
  have hdate : IsPart (ofString "- 2024-01-01 ##") := by decide +kernel
  have plainly : IsPlainlyRead (ofString "1.0.0-rc.1 (beta)") (ofString "- 2024-01-01 ##") :=
    ⟨by decide +kernel, by decide +kernel, by decide +kernel, by decide +kernel⟩
  exact ⟨hversion, hdate, plainly, linked_heading_agrees hversion hdate plainly (ofString "- x\n\n## 0.1.0")⟩

def firstSaid (content : Text) : Option (Option Text × Option Text × Bool) :=
  (releasesUnder content []).head?.map fun r => (r.version, r.date, r.isParseable)

/-- Do the two headings of a version and a date say different things? -/
def HeadingsDiffer (version date : Text) : Prop :=
  IsPart version ∧ IsPart date ∧ firstSaid (plainContent version date) ≠ firstSaid (linkedContent version date)

instance (version date : Text) : Decidable (HeadingsDiffer version date) := inferInstanceAs (Decidable (_ ∧ _ ∧ _))

/-- The headings do not agree if version or date speak of what is not released yet, if the version ends as the separator
    begins, if the date is taken for the closing run of the heading, or if the version goes on in another line. -/
theorem linked_heading_differs :
    HeadingsDiffer (ofString "Unreleased") (ofString "2024-01-01") ∧ HeadingsDiffer (ofString "1.0.0") (ofString "unreleased") ∧
      HeadingsDiffer (ofString "1.0.0 -") (ofString "2024-01-01") ∧ HeadingsDiffer (ofString "1.0.0") (ofString "#") ∧
      HeadingsDiffer (ofString "1.0.0\nBeta") (ofString "2024-01-01") := by
  decide +kernel

end ReleaseHeading

end Changelog
