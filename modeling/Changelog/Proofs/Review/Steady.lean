import Changelog.Proofs.Outline.Steady
import Changelog.Proofs.Review.Legible

/-! # Steady texts that are fixed

A fixed document comes back from its print if the text that it was fixed from is steady, nothing was filled into it, and
its releases have versions and dates that can stand in a linked heading. What fixing writes, the title, the headings of
releases and the definitions of their links, comes back by itself.
-/

namespace Changelog

open LineForm

namespace Review

variable {path : Option Path} {project : Project} {fetch : Fetch} {sorting : Sorting} {ordered releases : List Release}
  {definitions : Definitions} {r : Release} {blocks : List Node} {content : Text} {block : Node}

/-- A release whose version, if it has one, is not released yet or valid and dated. -/
def IsDated (r : Release) : Prop := ∀ version ∈ r.version?, version = unreleased ∨ Version.isValid version ∧ isDate (shownDate r)

instance (r : Release) : Decidable (IsDated r) := inferInstanceAs (Decidable (∀ version ∈ r.version?, _))

theorem IsDated.isKnown (h : IsDated r) : ∀ version ∈ r.version?, Version.IsKnown version := fun version hversion =>
  (h version hversion).imp_right And.left

/-! ## Where the blocks of a fixed document come from -/

theorem kind_fixedTitle (blocks : List Node) : (fixedTitle (Outline.ofNodes blocks).heading).kind = .heading :=
  Node.kind_of_headingDepth?_isSome (by rw [headingDepth?_fixedTitle _ (headingDepth?_of_mem_heading blocks)]; rfl)

theorem IsFix.kind_relinked (h : IsFix sorting path project fetch (Outline.ofNodes blocks) ordered releases definitions)
    (hr : r ∈ releases) : (relinked r).heading.kind = .heading :=
  Node.kind_of_headingDepth?_isSome (h.isPlaced hr).heading

/-- If no release was filled, each block is one of the source, or one that fixing writes. -/
theorem IsFix.exists_origin (h : IsFix sorting path project fetch (Outline.ofNodes blocks) ordered releases definitions)
    (kept : releases = Release.relate ordered)
    (hblock : block ∈ (fixedOutline (Outline.ofNodes blocks) releases definitions).nodes) :
    block ∈ blocks ∨ (block = fixedTitle (Outline.ofNodes blocks).heading ∧ block.kind = .heading) ∨
      (∃ r ∈ releases, block = (relinked r).heading) ∨ ∃ link ∈ releases.filterMap link?, block = linkNode project link := by
  rw [nodes_fixedOutline, List.mem_append] at hblock
  rcases hblock with hblock | hblock
  · rcases of_mem_nodes_fixedLayout hblock with rfl | hblock | ⟨r, hr, rfl | hblock⟩
    · exact .inr (.inl ⟨rfl, kind_fixedTitle blocks⟩)
    · exact .inl (mem_of_mem_nodes_layout hblock)
    · exact .inr (.inr (.inl ⟨r, hr, rfl⟩))
    · rw [kept] at hr
      obtain ⟨q, hq, previous, rfl⟩ := Release.exists_of_mem_relate hr
      exact .inl (mem_of_mem_release ((sorting.perm h.arranged).mem_iff.mp hq) (List.mem_cons_of_mem _ hblock))
  · obtain ⟨entry, hentry, rfl⟩ := List.mem_map.mp hblock
    rw [h.isKeyed.2.perm.mem_iff] at hentry
    rcases Definitions.mem_addAll hentry with hnone | ⟨hmem, -⟩
    · contradiction
    · rcases List.mem_append.mp hmem with hmem | hmem
      · exact .inl hmem
      · obtain ⟨link, hlink, heq⟩ := List.mem_map.mp hmem
        exact .inr (.inr (.inr ⟨link, hlink, heq.symm⟩))

theorem IsFix.mem_or_kind (h : IsFix sorting path project fetch (Outline.ofNodes blocks) ordered releases definitions)
    (kept : releases = Release.relate ordered)
    (hblock : block ∈ (fixedOutline (Outline.ofNodes blocks) releases definitions).nodes) :
    block ∈ blocks ∨ block.kind = .heading ∨ block.kind = .definition := by
  rcases h.exists_origin kept hblock with source | ⟨-, heading⟩ | ⟨r, hr, rfl⟩ | ⟨link, hlink, rfl⟩
  · exact .inl source
  · exact .inr (.inl heading)
  · exact .inr (.inl (h.kind_relinked hr))
  · exact .inr (.inr rfl)

/-! ## What comes back -/

theorem comesBack_fixedTitle {title : Option Node} (plain : (fixedTitle title).IsPlainHeading) :
    (fixedTitle title).ComesBack := by
  have read : Node.withoutPositionsAll (Inline.parse none 1
      (dropClosing ((Node.inlineTextAll Outline.titleNode.children).dropWhile isSpaceOrTab))) = Outline.titleNode.children := by
    decide +kernel
  have children := children_fixedTitle title
  refine @Node.IsPlainHeading.comesBack _ Outline.titleNode.children plain ?_ ?_ ?_
  · rw [children]
    exact read
  · rw [children]
  · rw [children]

theorem comesBack_relinked (dated : IsDated r) (plain : (relinked r).heading.IsPlainHeading)
    (unwritten : r.heading.ComesBack) (placed : IsPlaced r) :
    (relinked r).heading.ComesBack := by
  cases hun : r.isUnreleased with
  | true => exact plain.comesBack (parse_relinked_of_isUnreleased hun) rfl rfl
  | false =>
      cases hlink : link? r with
      | none =>
          have same : (relinked r).heading = r.heading := by
            rw [relinked, hlink]
            simp only [hun, Bool.false_eq_true, if_false, withHeadingNodes_children]
          rw [same]
          exact unwritten
      | some link =>
          have hversion := version?_of_link? hlink
          obtain ⟨valid, hdate⟩ : Version.isValid link.1 ∧ isDate (shownDate r) := by
            refine (dated link.1 hversion).resolve_left fun same => ?_
            have hunreleased : r.isUnreleased :=
              decide_eq_true ((Option.eq_some_of_filter_eq_some hversion).trans (congrArg some same))
            exact Bool.false_ne_true (hun.symm.trans hunreleased)
          have separated := isUnsplit_shownDate placed
          refine plain.comesBack (parse_relinked_of_link hlink hun plain valid hdate) ?_ ?_
          · rw [inlineTextAll_relinked_of_link hlink hun]
            simp [Node.inlineTextAll, Node.inlineText, Node.linkReference, Node.ofText, Node.referenceText, Node.orEmpty]
          · rw [children_relinked_of_link hlink hun]
            exact (ReleaseHeading.ofNodes_linked separated).trans (ReleaseHeading.ofNodes_linked separated).symm

/-! ## The whole document -/

/-- A steady text was fixed for a project whose address needs no brackets, and no release was filled. -/
structure IsSteadyFix (sorting : Sorting) (path : Option Path) (project : Project) (fetch : Fetch) (content : Text)
    (ordered releases : List Release) (definitions : Definitions) : Prop extends
    IsFix sorting path project fetch (Outline.ofNodes (Document.parse content).children) ordered releases definitions where
  kept : releases = Release.relate ordered
  plain : project.IsPlain
  steady : Document.IsSteady content
  dated : ∀ r ∈ releases, IsDated r

theorem IsFix.eq_relate {o : Outline} (h : IsFix sorting path project fetch o ordered releases definitions)
    (filled : ∀ r ∈ o.releases, r.isEmpty = false) : releases = Release.relate ordered := by
  have related : ∀ r ∈ Release.relate ordered, r.isEmpty = false := by
    intro r hr
    obtain ⟨q, hq, previous, rfl⟩ := Release.exists_of_mem_relate hr
    exact filled q ((sorting.perm h.arranged).mem_iff.mp hq)
  have one : Relator.RightUnique fun r r' : Release => (reviewRelease path true project fetch [] r).outcome = .ok r' :=
    fun _ _ _ first second => Except.ok.inj (first.symm.trans second)
  exact one.forall₂ h.reviewed (forall₂_reviewRelease_of_filled related)

namespace IsSteadyFix

variable (h : IsSteadyFix sorting path project fetch content ordered releases definitions)

include h

theorem exists_source (hr : r ∈ releases) :
    ∃ q ∈ (Outline.ofNodes (Document.parse content).children).releases, q.stretch = r.stretch := by
  rw [h.kept] at hr
  obtain ⟨q, hq, previous, rfl⟩ := Release.exists_of_mem_relate hr
  exact ⟨q, (sorting.perm h.arranged).mem_iff.mp hq, rfl⟩

theorem isShortDefinition {link : Text × Text} (hlink : link ∈ releases.filterMap link?) :
    Node.IsShortDefinition (Text.lowercase link.1) (compareUrl project link.1 link.2) := by
  obtain ⟨r, hr, hlink⟩ := List.mem_filterMap.mp hlink
  obtain ⟨s, hs, hprevious⟩ := exists_version?_of_link? h.related hr hlink
  exact isShortDefinition_compareUrl h.plain ((h.dated r hr).isKnown link.1 (version?_of_link? hlink))
    ((h.dated s hs).isKnown link.2 hprevious)

variable {a b : Node}

theorem comesBack (hblock : block ∈ (fixedOutline (Outline.ofNodes (Document.parse content).children) releases
    definitions).nodes) : block.ComesBack := by
  have drawn := h.isDrawnFrom hblock
  rcases h.exists_origin h.kept hblock with source | ⟨rfl, heading⟩ | ⟨r, hr, rfl⟩ | ⟨link, hlink, rfl⟩
  · exact h.steady.comesBack source
  · exact comesBack_fixedTitle (drawn.isPlainHeading heading).1
  · have plainHeading := (drawn.isPlainHeading (h.kind_relinked hr)).1
    obtain ⟨q, hq, same⟩ := h.exists_source hr
    have source : r.heading ∈ (Document.parse content).children :=
      mem_of_mem_release hq (same ▸ List.mem_cons_self)
    exact comesBack_relinked (h.dated r hr) plainHeading (h.steady.comesBack source) (h.isPlaced hr)
  · exact (h.isShortDefinition hlink).isExact.comesBack

/-- A heading or a definition ends every list, code and HTML above it that a title ends. -/
theorem hasMark (hblock : block ∈ (fixedOutline (Outline.ofNodes (Document.parse content).children) releases
    definitions).nodes) (hkind : block.kind = .heading ∨ block.kind = .definition) : block.HasMark := by
  rcases hkind with heading | definition
  · exact ((h.isDrawnFrom hblock).isPlainHeading heading).1.hasMark
  · rcases h.exists_origin h.kept hblock with source | ⟨rfl, heading⟩ | ⟨r, hr, rfl⟩ | ⟨link, hlink, rfl⟩
    · obtain ⟨b, hb, rfl⟩ := List.mem_map.mp source
      obtain ⟨label, url, plain⟩ := (Block.standsIn_of_mem_ofLinesFrom hb).isPlainDefinition
        (fun _ => Text.isUnbroken_of_mem_lines) definition
      exact plain.hasMark (h.steady.definitions _ source definition).quote
    · exact absurd (heading.symm.trans definition) nofun
    · exact absurd ((h.kind_relinked hr).symm.trans definition) nofun
    · exact (h.isShortDefinition hlink).isPlainDefinition.hasMark List.not_mem_nil

theorem runsInto_eq_false
    (ha : a ∈ (fixedOutline (Outline.ofNodes (Document.parse content).children) releases definitions).nodes)
    (hb : b ∈ (fixedOutline (Outline.ofNodes (Document.parse content).children) releases definitions).nodes)
    (hkind : b.kind = .heading ∨ b.kind = .definition) (hopen : a.kind ∈ Node.openKinds) : a.runsInto b = false := by
  have source : a ∈ (Document.parse content).children := by
    rcases h.mem_or_kind h.kept ha with source | heading | definition
    · exact source
    · exact absurd (heading ▸ hopen) (by decide)
    · exact absurd (definition ▸ hopen) (by decide)
  obtain ⟨block, hblock, rfl⟩ := List.mem_map.mp source
  exact Node.runsInto_of_hasMark (Block.standsIn_of_mem_ofLinesFrom hblock) (fun _ => Text.isUnbroken_of_mem_lines) hopen
    (h.steady.ended _ source hopen) (h.isDrawnFrom hb) (h.hasMark hb hkind)

end IsSteadyFix

/-! ## What stands apart -/

/-- The parts of a fixed document: what stands in front of the releases, each release, and each definition. -/
def fixedParts (o : Outline) (releases : List Release) (definitions : Definitions) : List (List Node) :=
  (fixedTitle o.heading :: o.content) :: (releases.map fun r => (relinked r).heading :: r.stretch.blocks) ++
    definitions.map fun entry => [entry.2]

theorem flatten_fixedParts (o : Outline) (releases : List Release) (definitions : Definitions) :
    (fixedParts o releases definitions).flatten = (fixedOutline o releases definitions).nodes := by
  rw [nodes_fixedOutline, fixedParts, fixedLayout, Layout.nodes]
  simp only [List.flatten_append, List.flatten_cons, Option.toList_some, List.flatMap_map, ← List.flatMap_def,
    ← List.map_eq_flatMap, List.cons_append, List.nil_append, List.append_assoc]
  rfl

theorem isClosed_cons {heading : Node} (hkind : heading.kind = .heading) (closed : Document.IsClosed blocks) :
    Document.IsClosed (heading :: blocks) :=
  List.isChain_cons.mpr ⟨fun _ _ hopen => absurd (hkind ▸ hopen) (by decide), closed⟩

theorem isClosed_content (closed : Document.IsClosed (blocks.filter (!·.isNamed))) :
    Document.IsClosed (Outline.ofNodes blocks).content := by
  rw [← Layout.nodes_ofNodes] at closed
  rw [Outline.ofNodes_eq_ofLayout]
  exact closed.infix ⟨_, _, rfl⟩

theorem isClosed_stretch (closed : Document.IsClosed (blocks.filter (!·.isNamed)))
    (hr : r ∈ (Outline.ofNodes blocks).releases) : Document.IsClosed r.stretch.blocks := by
  rw [← Layout.nodes_ofNodes] at closed
  rw [releases_ofNodes] at hr
  obtain ⟨⟨s, i⟩, hs, rfl⟩ := List.mem_map.mp hr
  rw [show (placed (s, i)).stretch = s from Release.stretch_ofStretch i s]
  have inside : s.nodes <:+: ((Layout.ofNodes blocks).releases.map Stretch.nodes).flatten :=
    List.infix_of_mem_flatten (List.mem_map_of_mem (List.fst_mem_of_mem_zipIdx hs))
  rw [← List.flatMap_def] at inside
  have own : Document.IsClosed s.nodes := closed.infix (inside.trans (List.suffix_append _ _).isInfix)
  exact own.tail

namespace IsSteadyFix

variable (h : IsSteadyFix sorting path project fetch content ordered releases definitions)

include h

theorem isClosed_part : ∀ part ∈ fixedParts (Outline.ofNodes (Document.parse content).children) releases definitions,
    Document.IsClosed part := by
  refine List.forall_mem_append.mpr ⟨List.forall_mem_cons.mpr ⟨?_, List.forall_mem_map.mpr fun r hr => ?_⟩, ?_⟩
  · exact isClosed_cons (kind_fixedTitle _) (isClosed_content h.steady.closed)
  · obtain ⟨q, hq, same⟩ := h.exists_source hr
    exact isClosed_cons (h.kind_relinked hr) (same ▸ isClosed_stretch h.steady.closed hq)
  · exact List.forall_mem_map.mpr fun entry _ => .singleton entry.2

theorem kind_of_head? : ∀ part ∈ (fixedParts (Outline.ofNodes (Document.parse content).children) releases definitions).tail,
    ∀ b ∈ part.head?, b.kind = .heading ∨ b.kind = .definition := by
  refine List.forall_mem_append.mpr ⟨List.forall_mem_map.mpr fun r hr => ?_, List.forall_mem_map.mpr fun entry hentry => ?_⟩
  · rintro b ⟨⟩
    exact .inl (h.kind_relinked hr)
  · rintro b ⟨⟩
    exact .inr (Node.kind_of_isNamed (h.isKeyed.1.isNamed (List.mem_map_of_mem hentry)))

/-- No list, code or HTML goes on with what is printed behind it: inside a part it did not in the source, and every other
    part begins with a heading or a definition. -/
theorem isClosed : Document.IsClosed
    (fixedOutline (Outline.ofNodes (Document.parse content).children) releases definitions).nodes := by
  let parts := fixedParts (Outline.ofNodes (Document.parse content).children) releases definitions
  have written : ∀ part ∈ parts, ∀ b ∈ part, b ∈ parts.flatten := fun _ hpart _ hb => List.mem_flatten_of_mem hpart hb
  rw [← flatten_fixedParts]
  have apart : ∀ part ∈ parts, ∀ next ∈ parts.tail, ∀ a ∈ part.getLast?, ∀ b ∈ next.head?,
      a.kind ∈ Node.openKinds → a.runsInto b = false := by
    intro part hpart next hnext a ha b hb
    have ha := written part hpart a (List.mem_of_getLast? ha)
    have hb' := written next (List.mem_of_mem_tail hnext) b (List.mem_of_mem_head? hb)
    rw [flatten_fixedParts] at ha hb'
    exact h.runsInto_eq_false ha hb' (h.kind_of_head? next hnext b hb)
  have filled : [] ∉ parts := by simp [parts, fixedParts]
  refine (List.isChain_flatten filled).mpr ⟨h.isClosed_part, List.Pairwise.isChain (List.pairwise_cons.mpr ⟨?_, ?_⟩)⟩
  · exact apart _ List.mem_cons_self
  · exact List.pairwise_of_forall_mem_list fun part hpart => apart part (List.mem_cons_of_mem _ hpart)

end IsSteadyFix

end Review

end Changelog
