import Changelog.Proofs.Review.Written

/-! # Fixed documents that are read again

A fixed document that is printed and read again has the same parts, if its blocks read back and none goes on with the
one behind it. Its releases are those that were linked, and they say the same if their headings do.
-/

namespace Changelog

namespace Review

variable {env : Environment} {path : Option Path} {options : Options} {root : Node} {project : Project} {fetch : Fetch}
  {o : Outline} {r s : Release} {sorting : Sorting} {ordered releases : List Release} {definitions : Definitions}
  {blocks : List Node} {content : Text} {R : Node → Node → Prop}

/-- A release that was linked, written and read again. -/
structure IsReturned (R : Node → Node → Prop) (r s : Release) : Prop where
  told : IsToldOf r s.toReleaseHeading
  heading : (relinked r).heading.IsAgain s.heading
  like : (relinked r).stretch.Like R s.stretch

namespace IsReturned

theorem depth_eq (h : IsReturned R r s) (placed : IsPlaced r) : s.heading.depth = r.heading.depth := by
  have hkind := Node.kind_of_headingDepth?_isSome placed.heading
  have hkind' : s.heading.kind = .heading := h.heading.kind_eq.trans hkind
  have hdepth : s.heading.headingDepth? = r.heading.headingDepth? := h.heading.headingDepth?_eq
  rwa [Node.headingDepth?, Node.headingDepth?, if_pos hkind', if_pos hkind] at hdepth

theorem isReadable_eq (h : IsReturned R r s) (placed : IsPlaced r) : isReadable s = isReadable r := by
  rw [isReadable, isReadable, h.depth_eq placed, h.told.isParseable]

theorem isEmpty_eq (h : IsReturned R r s) : s.isEmpty = r.isEmpty := by
  have hblocks : s.stretch.blocks.isEmpty = r.stretch.blocks.isEmpty := isEmpty_of_forall₂ h.like.blocks
  rw [Bool.eq_iff_iff, isEmpty_iff_blocks_stretch, isEmpty_iff_blocks_stretch, ← List.isEmpty_iff, hblocks, List.isEmpty_iff]

end IsReturned

/-! ## Outlines -/

/-- Does the heading of a linked release say the same when it is read back? -/
def IsTold (r : Release) : Prop :=
  ReleaseHeading.ofNodes ((relinked r).heading.reread 1).children = ReleaseHeading.ofNodes (relinked r).heading.children

theorem returned_of_like {stretches : List Stretch} (hR : ∀ a b, R a b → a.IsAgain b)
    (h : IsFix sorting path project fetch (Outline.ofNodes blocks) ordered releases definitions) (told : ∀ r ∈ releases, IsTold r)
    (like : List.Forall₂ (Stretch.Like R) (releases.map fun r => (relinked r).stretch) stretches) :
    List.Forall₂ (IsReturned R) releases (stretches.mapIdx Release.ofStretch) := by
  rw [List.forall₂_map_left_iff] at like
  have each := (List.forall₂_and_left _ _).mpr ⟨fun r hr => And.intro (h.isPlaced hr) (told r hr), like⟩
  refine forall₂_mapIdx each ?_
  rintro r t i ⟨⟨placed, said⟩, hlike⟩
  have again := hR _ _ hlike.heading
  refine ⟨?_, ?_, ?_⟩
  · have same : ReleaseHeading.ofNodes t.heading.children = ReleaseHeading.ofNodes (relinked r).heading.children :=
      again.ofNodes_eq.trans said
    show IsToldOf r (ReleaseHeading.ofNodes t.heading.children)
    rw [same]
    exact isToldOf_relinked placed
  · have hheading : (Release.ofStretch i t).heading = t.heading := congrArg Stretch.heading (Release.stretch_ofStretch i t)
    rwa [hheading]
  · rw [Release.stretch_ofStretch]
    exact hlike

/-- A fixed document that is read again has the outline of alike parts, and its releases say the same. -/
theorem IsFix.exists_returned {again : List Node} (hR : ∀ a b, R a b → a.IsAgain b)
    (h : IsFix sorting path project fetch (Outline.ofNodes blocks) ordered releases definitions)
    (later : ∀ r ∈ releases.tail, r.heading.startsRelease) (told : ∀ r ∈ releases, IsTold r)
    (like : List.Forall₂ R (fixedOutline (Outline.ofNodes blocks) releases definitions).nodes again) :
    ∃ layout entries, again = layout.nodes ++ entries.map (·.2) ∧
      (fixedLayout (Outline.ofNodes blocks) releases).Like R layout ∧ definitions.Like R entries ∧
      Outline.ofNodes again = Outline.ofLayout layout entries ∧
      List.Forall₂ (IsReturned R) releases (layout.releases.mapIdx Release.ofStretch) := by
  rw [nodes_fixedOutline] at like
  obtain ⟨layout, entries, hagain, likeLayout, likeEntries, outline⟩ := exists_ofLayout_of_forall₂
    (fun a b hab => ⟨(hR a b hab).headingDepth?_eq, (hR a b hab).key?_eq⟩) (h.isSound later) rfl
    (fun _ => h.isNamed_fixedLayout) h.isKeyed.1 like
  exact ⟨layout, entries, hagain, likeLayout, likeEntries, outline, returned_of_like hR h told likeLayout.releases⟩

theorem IsFix.map_heading (h : IsFix sorting path project fetch o ordered releases definitions) :
    releases.map Release.heading = ordered.map Release.heading := by
  rw [← Release.map_relate (fun _ _ => rfl) ordered]
  refine map_eq_map_of_forall₂ (h.backfilled.imp fun r r' hr => ?_)
  cases hr <;> rfl

theorem IsFix.startsRelease_of_mem_tail (h : IsFix sorting path project fetch o ordered releases definitions)
    (later : ∀ r ∈ ordered.tail, r.heading.startsRelease) :
    ∀ r ∈ releases.tail, r.heading.startsRelease := by
  intro r hr
  have hmem : r.heading ∈ (releases.map Release.heading).tail := by
    rw [← List.map_tail]
    exact List.mem_map_of_mem hr
  rw [h.map_heading, ← List.map_tail] at hmem
  obtain ⟨q, hq, heq⟩ := List.mem_map.mp hmem
  exact heq ▸ later q hq

/-! ## Texts -/

theorem print_congr {root other : Node} (h : Document.blocksText other.children = Document.blocksText root.children)
    (hroot : root.children ≠ []) (hother : other.children ≠ []) : Document.print other = Document.print root := by
  have filled : root.children.isEmpty = false := by simpa using hroot
  have filled' : other.children.isEmpty = false := by simpa using hother
  rw [Document.print, Document.print, filled, filled', h]

theorem IsFix.forall₂_isAgain
    (h : IsFix sorting path project fetch (Outline.ofNodes (Document.parse content).children) ordered releases definitions)
    {root : Node}
    (hroot : root.children = (fixedOutline (Outline.ofNodes (Document.parse content).children) releases definitions).nodes)
    (closed : Document.IsClosed root.children)
    (composed : ∀ block ∈ root.children, block.kind ≠ .heading → block.isComposed → block.ReadsBack) :
    List.Forall₂ Node.IsAgain root.children (Document.parse (Document.print root)).children ∧
      Document.contacts (Document.parse (Document.print root)).children = Document.contacts root.children := by
  have unbroken : ∀ line ∈ Text.lines content, line.IsUnbroken := fun _ => Text.isUnbroken_of_mem_lines
  have drawn : ∀ node ∈ root.children, node.IsDrawnFrom (Text.lines content) := by
    rw [hroot]
    exact fun node => h.isDrawnFrom
  have readsBack : ∀ node ∈ root.children, node.ReadsBack := fun node hnode =>
    (drawn node hnode).readsBack unbroken (composed node hnode)
  have hne : root.children ≠ [] := by
    rw [hroot]
    exact List.cons_ne_nil _ _
  exact Document.forall₂_parse_print hne unbroken drawn readsBack closed

theorem outcome_text_of_run (hrun : (run env path options (Document.parse content)).outcome = .ok (some blocks))
    {fixed : Text} (printed : Document.print { Document.parse content with children := blocks } = fixed) :
    (text env path options content).outcome = .ok
      { diagnostics := (run env path options (Document.parse content)).diagnostics, content := fixed,
        changed := decide (fixed ≠ content) } := by
  simp only [text, hrun, Except.map, printed]

end Review

end Changelog
