import Changelog.Proofs.Outline.Nesting
import Changelog.Proofs.Review.Clean
import Changelog.Proofs.Review.Legible
import Changelog.Proofs.Review.Twice

/-! # Fixed without a remark

A document that was fixed without a remark is not remarked on when it is printed and read again, if its parts can be
told from the print: every release is as it has to be, and the headings and links that were written are as they have
to be too. What is not written anew has to be read back: the heading of the oldest release, and the definitions.
-/

namespace Changelog

namespace Node

variable {node again other : Node}

theorem reread_congr (h : other.blockText = node.blockText) (number : Nat) : other.reread number = node.reread number := by
  simp only [reread, block, lines, h]

theorem IsAgain.isCopy (h : node.IsAgain again) (copy : other.IsCopy (node.reread 1)) : other.IsCopy again :=
  h.same.trans copy

end Node

namespace Review

variable {env : Environment} {path : Option Path} {options : Options} {root : Node} {project : Project} {fetch : Fetch}
  {o : Outline} {q r s : Release} {releases others : List Release} {definitions entries : Definitions} {blocks : List Node}
  {content : Text}

/-! ## What is read back -/

/-- A fixed document that can be told from its print: no list, code or HTML goes on with what is printed behind it, the
    definitions read back with their addresses, and the oldest release says the same. What a steady text is fixed to
    without a remark is one (`isLegible_of_isSteady`). -/
structure IsLegible (blocks : List Node) : Prop where
  closed : Document.IsClosed blocks
  defined : ∀ block ∈ blocks, block.kind = .definition → block.ReadsBack ∧ (block.reread 1).url = block.url
  told : ∀ r ∈ (Outline.ofNodes blocks).releases.getLast?,
    ReleaseHeading.ofNodes (r.heading.reread 1).children = ReleaseHeading.ofNodes r.heading.children

instance (blocks : List Node) : Decidable (IsLegible blocks) :=
  decidable_of_iff (Document.IsClosed blocks ∧
      (∀ block ∈ blocks, block.kind = .definition → block.ReadsBack ∧ (block.reread 1).url = block.url) ∧
      ∀ r ∈ (Outline.ofNodes blocks).releases.getLast?,
        ReleaseHeading.ofNodes (r.heading.reread 1).children = ReleaseHeading.ofNodes r.heading.children)
    ⟨fun ⟨closed, defined, told⟩ => ⟨closed, defined, told⟩, fun ⟨closed, defined, told⟩ => ⟨closed, defined, told⟩⟩

/-- What a document was read from has no lists but those that keep their source. -/
theorem kind_of_isComposed {block : Node} (h : block ∈ (Document.parse content).children) (composed : block.isComposed) :
    block.kind = .heading ∨ block.kind = .definition := by
  obtain ⟨b, -, rfl⟩ := List.mem_map.mp h
  have either : b.node.value.isSome ∨ b.node.kind = .heading ∨ b.node.kind = .definition := by
    rw [Block.value_node, Block.kind_node]
    cases b.form <;> simp [BlockForm.keptKind?, BlockForm.kind]
  simp only [Node.isComposed, Bool.or_eq_true, Bool.and_eq_true, decide_eq_true_eq, or_assoc] at composed
  rcases composed with heading | definition | ⟨-, built⟩
  · exact Or.inl heading
  · exact Or.inr definition
  · exact either.resolve_left (Option.not_isSome_iff_eq_none.mpr (Option.isNone_iff_eq_none.mp built))

theorem IsFix.kind_of_isComposed
    (h : IsFix sorting path project fetch (Outline.ofNodes (Document.parse content).children) ordered releases definitions)
    (kept : releases = Release.relate ordered)
    {block : Node}
    (hblock : block ∈ (fixedOutline (Outline.ofNodes (Document.parse content).children) releases definitions).nodes)
    (composed : block.isComposed) : block.kind = .heading ∨ block.kind = .definition := by
  rcases h.mem_or_kind kept hblock with source | kind
  · exact Review.kind_of_isComposed source composed
  · exact kind

/-! ## Headings -/

theorem getLast?_of_link?_eq_none (related : Release.relate releases = releases)
    (versions : ∀ r ∈ releases, r.version?.isSome) (hr : r ∈ releases) (unlinked : link? r = none) :
    releases.getLast? = some r := by
  induction releases with
  | nil => contradiction
  | cons first rest ih =>
      obtain ⟨next, related⟩ := Release.relate_cons_eq_iff.mp related
      obtain ⟨hfirst, hrest⟩ := List.forall_mem_cons.mp versions
      cases rest with
      | nil => rw [List.mem_singleton.mp hr, List.getLast?_singleton]
      | cons older rest =>
          rw [List.getLast?_cons_cons]
          refine ih related hrest ((List.mem_cons.mp hr).resolve_left ?_)
          -- the first of two releases with versions is linked
          rintro rfl
          obtain ⟨version, hversion⟩ := Option.isSome_iff_exists.mp hfirst
          obtain ⟨previous, hprevious⟩ := Option.isSome_iff_exists.mp (hrest older List.mem_cons_self)
          have behind : r.previous.filter (!·.isEmpty) = some previous := by
            rw [next]
            exact hprevious
          simp [link?, linkable?, hversion, behind] at unlinked

theorem IsFix.startsRelease (h : IsFix sorting path project fetch (Outline.ofNodes blocks) ordered releases definitions)
    (fine : ∀ r ∈ releases, IsFine r) :
    ∀ r ∈ releases.tail, r.heading.startsRelease := fun r hr =>
  (fine r (List.mem_of_mem_tail hr)).clear.startsRelease (h.isPlaced (List.mem_of_mem_tail hr))

/-- The headings of a document that was fixed without a remark say the same when they are read back. -/
theorem IsFix.isTold
    (h : IsFix sorting path project fetch (Outline.ofNodes (Document.parse content).children) ordered releases definitions)
    (fine : ∀ r ∈ releases, IsFine r)
    (legible : IsLegible (fixedOutline (Outline.ofNodes (Document.parse content).children) releases definitions).nodes)
    (hr : r ∈ releases) : IsTold r := by
  have placed := h.isPlaced hr
  have plain : (relinked r).heading.IsPlainHeading := by
    have hkind : (relinked r).heading.kind = .heading := Node.kind_of_headingDepth?_isSome placed.heading
    refine ((h.isDrawnFrom ?_).isPlainHeading hkind).1
    rw [nodes_fixedOutline]
    exact List.mem_append_left _ (List.mem_append_right _ (List.mem_flatMap.mpr
      ⟨_, List.mem_map_of_mem hr, List.mem_cons_self⟩))
  cases hun : r.isUnreleased with
  | true => exact isTold_of_isUnreleased plain hun
  | false =>
      cases hlink : link? r with
      | some link =>
          obtain ⟨version, hversion, valid⟩ := (fine r hr).clear.exists_isValid hun
          obtain ⟨date, hdate, filled, clear⟩ := (fine r hr).date hun
          have same : version = link.1 :=
            Option.some.inj (hversion.symm.trans (Option.eq_some_of_filter_eq_some (version?_of_link? hlink)))
          refine isTold_of_link hlink hun placed plain (same ▸ valid) ?_
          rwa [shownDate_of_date hdate filled]
      | none =>
          -- the oldest release keeps its heading
          have last := getLast?_of_link?_eq_none h.related (fun s hs => (fine s hs).clear.version?_eq.2) hr hlink
          obtain ⟨s, hs, hrs⟩ := exists_getLast?_of_forall₂ (forall₂_isReread fun r => h.isPlaced).flip (Option.mem_def.mpr last)
          have told := legible.told
          rw [h.ofNodes_nodes (h.startsRelease fine)] at told
          have said := told s hs
          rwa [hrs.heading] at said

/-! ## Groups -/

theorem of_groupFindings_eq_nil {version : Option Text} {group : Section} (h : groupFindings version group = []) :
    group.isEmpty = false ∧ ∃ type ∈ changeTypes, group.heading.depth = some 3 ∧
      ∃ child, group.heading.children = [child] ∧ child.kind = .text ∧ child.value = some type := by
  unfold groupFindings at h
  split at h
  · contradiction
  next grouped =>
    simp only [Section.hasGroupHeading, Bool.not_eq_true', Bool.not_eq_false, Bool.and_eq_true, decide_eq_true_eq] at grouped
    obtain ⟨child, hchild⟩ := Option.isSome_iff_exists.mp grouped.2
    obtain ⟨children, hkind⟩ := Node.children_of_soleChild? hchild
    obtain ⟨htype, hempty⟩ := List.append_eq_nil_iff.mp h
    have said : group.groupType? = child.value := by
      rw [Section.groupType?, if_pos grouped.1, hchild, Option.bind_some]
    refine ⟨by simpa using hempty, ?_⟩
    rw [said] at htype
    cases hvalue : child.value with
    | none => simp [hvalue] at htype
    | some type =>
        have known : type ∈ changeTypes := by
          simp only [hvalue] at htype
          split at htype
          · contradiction
          · simpa using htype
        exact ⟨type, known, grouped.1, child, children, hkind, hvalue⟩

theorem exists_isCopy_reread {version : Option Text} {group : Section} (h : groupFindings version group = [])
    (hkind : group.heading.kind = .heading) :
    ∃ type ∈ changeTypes, (Node.heading 3 [Node.ofText type]).IsCopy (group.heading.reread 1) := by
  obtain ⟨-, type, known, depth, child, children, childKind, value⟩ := of_groupFindings_eq_nil h
  have exact : ∀ type ∈ changeTypes, (Node.heading 3 [Node.ofText type]).IsExact := by decide +kernel
  have content : Node.inlineTextAll group.heading.children = Node.inlineTextAll [Node.ofText type] := by
    rw [children, Node.inlineTextAll, Node.inlineTextAll, Node.inlineText_of_text childKind, value]
    rfl
  have text : group.heading.blockText = (Node.heading 3 [Node.ofText type]).blockText := by
    rw [Node.blockText_of_heading hkind, Node.blockText_of_heading rfl, depth, Node.headingText, content]
    rfl
  refine ⟨type, known, ?_⟩
  rw [Node.reread_congr text]
  exact (exact type known).isCopy_reread 1

/-- What stands under the heading of a release is nested by its headings. -/
def IsNested (r : Release) : Prop := r.body = Section.ofBlocks r.heading r.stretch.blocks

theorem isNested_ofStretch (index : Nat) (s : Stretch) : IsNested (Release.ofStretch index s) := by
  have stretch := Release.stretch_ofStretch index s
  rw [IsNested, show (Release.ofStretch index s).heading = s.heading from congrArg Stretch.heading stretch, stretch]
  rfl

theorem isNested_of_mem_ofNodes (hr : r ∈ (Outline.ofNodes blocks).releases) : IsNested r := by
  rw [releases_ofNodes] at hr
  obtain ⟨⟨s, i⟩, -, rfl⟩ := List.mem_map.mp hr
  exact isNested_ofStretch i s

theorem IsReturned.groups (h : IsReturned Node.IsAgain r s) (nested : IsNested r) (nested' : IsNested s)
    (fine : ∀ group ∈ r.groups, groupFindings r.version group = []) :
    ∀ group ∈ s.groups, groupFindings s.version group = [] := by
  have like : Section.Like Node.IsAgain r.body s.body := by
    rw [nested, nested']
    exact Section.Like.ofBlocks (fun _ _ hab => hab.headingDepth?_eq) _ _ h.like.blocks
  have both := List.Forall₂.mp (fun _ _ => And.intro) like.headings like.children
  intro group hgroup
  obtain ⟨origin, horigin, ⟨opening, again⟩, likeGroup⟩ := exists_left_of_forall₂ both hgroup
  have quiet := fine origin horigin
  obtain ⟨type, known, copy⟩ := exists_isCopy_reread quiet (Node.kind_of_headingDepth?_isSome opening)
  exact groupFindings_of_isCopy known (again.isCopy copy) (likeGroup.isEmpty_eq.trans (of_groupFindings_eq_nil quiet).1) _

/-! ## Releases -/

theorem IsReturned.isFine (h : IsReturned Node.IsAgain r s) (placed : IsPlaced r) (nested : IsNested r) (nested' : IsNested s)
    (fine : IsFine r) : IsFine s where
  clear := by
    obtain ⟨version, hversion, hvalid⟩ := fine.clear.version
    exact ⟨(h.depth_eq placed).trans fine.clear.depth, h.told.isParseable.trans fine.clear.isParseable, version,
      h.told.version.trans hversion, hvalid⟩
  filled := h.isEmpty_eq.trans fine.filled
  date released := by
    rw [Release.isUnreleased, h.told.version] at released
    obtain ⟨date, hdate, filled, clear⟩ := fine.date released
    refine ⟨date, ?_, filled, clear⟩
    cases hlink : link? r with
    | some link =>
        rw [h.told.date (by rw [hlink]; rfl) released, shownDate_of_date hdate filled]
    | none => rw [h.told.kept hlink released, hdate]
  groups := h.groups nested nested' fine.groups

theorem IsReturned.isSettled (h : IsReturned Node.IsAgain r s) (fine : IsFine s) : IsSettled s where
  depth := fine.clear.depth
  isParseable := fine.clear.isParseable
  title unreleased := h.told.title (of_decide_eq_true unreleased)

theorem IsFix.isNested (h : IsFix sorting path project fetch (Outline.ofNodes blocks) ordered releases definitions)
    (kept : releases = Release.relate ordered) (hr : r ∈ releases) : IsNested r := by
  rw [kept] at hr
  obtain ⟨q, hq, previous, rfl⟩ := Release.exists_of_mem_relate hr
  have nested : IsNested q := isNested_of_mem_ofNodes ((sorting.perm h.arranged).mem_iff.mp hq)
  exact nested

theorem fine_again {stretches : List Stretch} (fine : ∀ r ∈ releases, IsPlaced r ∧ IsNested r ∧ IsFine r)
    (returned : List.Forall₂ (IsReturned Node.IsAgain) releases (stretches.mapIdx Release.ofStretch)) :
    ∀ s ∈ Release.relate (stretches.mapIdx Release.ofStretch), IsFine s ∧ IsSettled s := by
  intro s hs
  obtain ⟨s', hs', previous, rfl⟩ := Release.exists_of_mem_relate hs
  obtain ⟨r, hr, told, heading, like⟩ := exists_left_of_forall₂ returned hs'
  have related : IsReturned Node.IsAgain r { s' with previous } := ⟨told, heading, like⟩
  have nested' : IsNested { s' with previous } := by
    obtain ⟨i, hi, rfl⟩ := List.mem_mapIdx.mp hs'
    exact isNested_ofStretch i _
  obtain ⟨placed, nested, hfine⟩ := fine r hr
  have fine' := related.isFine placed nested nested' hfine
  exact ⟨fine', related.isSettled fine'⟩

theorem IsFix.isSome_version? (h : IsFix sorting path project fetch o ordered releases definitions) (fine : ∀ r ∈ releases, IsFine r) :
    ∀ r ∈ o.releases, r.version?.isSome := by
  intro r hr
  have hversion : r.version? ∈ releases.map Release.version? := by
    rw [h.map_version?]
    exact List.mem_map_of_mem ((sorting.perm h.arranged).mem_iff.mpr hr)
  obtain ⟨s, hs, same⟩ := List.mem_map.mp hversion
  rw [← same]
  exact (fine s hs).clear.version?_eq.2

/-! ## The whole document -/

theorem isCopy_fixedTitle {title : Option Node} {t : Node} (h : ∀ t ∈ title, t.headingDepth? = some 1)
    (again : (fixedTitle title).IsAgain t) : Outline.titleNode.IsCopy t := by
  have exact : Outline.titleNode.IsExact := by decide +kernel
  have hdepth := headingDepth?_fixedTitle title h
  have hkind := Node.kind_of_headingDepth?_isSome (by rw [hdepth]; rfl)
  rw [Node.headingDepth?, if_pos hkind] at hdepth
  have text : (fixedTitle title).blockText = Outline.titleNode.blockText := by
    rw [Node.blockText_of_heading hkind, Node.blockText_of_heading rfl, hdepth, children_fixedTitle]
    rfl
  refine again.isCopy ?_
  rw [Node.reread_congr text]
  exact exact.isCopy_reread 1

theorem url_of_like (like : definitions.Like Node.IsAgain entries)
    (defined : ∀ entry ∈ definitions, (entry.2.reread 1).url = entry.2.url) (nodup : definitions.keys.Nodup) (key : Text) :
    (entries.find? key).bind Node.url = (definitions.find? key).bind Node.url := by
  cases found : definitions.find? key with
  | none =>
      have absent : entries.find? key = none := by
        rw [← Option.not_isSome_iff_eq_none, Definitions.find?_isSome_iff, like.keys_eq, ← Definitions.find?_isSome_iff, found]
        exact Bool.false_ne_true
      rw [absent]
  | some node =>
      obtain ⟨again, hagain, same⟩ := like.exists_find? found
      have url : again.url = (node.reread 1).url := by
        rw [← Node.url_withoutPositions, same.same, Node.url_withoutPositions]
      rw [hagain, Option.bind_some, Option.bind_some, url]
      exact defined (key, node) ((Definitions.find?_eq_some_iff nodup).mp found)

theorem IsFix.url_reread (h : IsFix sorting path project fetch (Outline.ofNodes blocks) ordered releases definitions)
    (legible : IsLegible (fixedOutline (Outline.ofNodes blocks) releases definitions).nodes) {entry : Text × Node}
    (hentry : entry ∈ definitions) : (entry.2.reread 1).url = entry.2.url := by
  have hmem : entry.2 ∈ definitions.map (·.2) := List.mem_map_of_mem hentry
  refine (legible.defined entry.2 ?_ (Node.kind_of_isNamed (h.isKeyed.1.isNamed hmem))).2
  rw [nodes_fixedOutline]
  exact List.mem_append_right _ hmem

/-- A document that was fixed without a remark is not remarked on when it is read again. -/
theorem IsFix.reviewOutline_again
    (h : IsFix sorting path project fetch (Outline.ofNodes (Document.parse content).children) ordered releases definitions)
    (kept : releases = Release.relate ordered)
    (fine : ∀ r ∈ releases, IsFine r)
    (distinct : (((Outline.ofNodes (Document.parse content).children).releases.filterMap Release.version?).map
      Text.lowercase).Nodup)
    (hroot : root.children = (fixedOutline (Outline.ofNodes (Document.parse content).children) releases definitions).nodes)
    (legible : IsLegible root.children) (lint : options.fix = false) {again : Fetch} {document : Node} :
    let review := reviewOutline env path options project again document
      (Outline.ofNodes (Document.parse (Document.print root)).children)
    (∃ o', review.outcome = .ok o') ∧ review.diagnostics = [] := by
  intro review
  have composed : ∀ block ∈ root.children, block.kind ≠ .heading → block.isComposed → block.ReadsBack := by
    intro block hblock hkind hcomposed
    have definition := (h.kind_of_isComposed kept (hroot ▸ hblock) hcomposed).resolve_left hkind
    exact (legible.defined block hblock definition).1
  have read := (h.forall₂_isAgain hroot legible.closed composed).1
  have told : ∀ r ∈ releases, IsTold r := fun r hr => h.isTold fine (hroot ▸ legible) hr
  rw [hroot] at read
  obtain ⟨layout, entries, -, like, likeEntries, outline, returned⟩ :=
    h.exists_returned (fun _ _ hab => hab) (h.startsRelease fine) told read
  have titled : (Outline.ofLayout layout entries).hasTitle := by
    obtain ⟨t, ht, again⟩ := exists_of_rel_some like.title
    exact hasTitle_of_isCopy ht (isCopy_fixedTitle (headingDepth?_of_mem_heading _) again)
  have addresses : ∀ entry ∈ definitions, (entry.2.reread 1).url = entry.2.url := fun _ => h.url_reread (hroot ▸ legible)
  have said := returned.imp fun r s hrs => hrs.told
  -- what can be remarked on: the links, by where their definitions lead, and each release
  have again' : ∀ s ∈ Release.relate (layout.releases.mapIdx Release.ofStretch), IsFine s ∧ IsSettled s :=
    fine_again (fun r hr => ⟨h.isPlaced hr, h.isNested kept hr, fine r hr⟩) returned
  obtain ⟨hok, hremarks⟩ := @IsFix.reviewOutline_of_told env path options document project fetch sorting ordered releases
    definitions _ h (h.isSome_version? fine) distinct lint again (Outline.ofLayout layout entries) titled said
    likeEntries.keys_eq (url_of_like likeEntries addresses h.isKeyed.1.nodup)
  have quiet := remarksAfter_eq_nil (fun s hs => (again' s hs).1) (fun s hs => (again' s hs).2) (h.nodup_of_told distinct said)
  rw [show review = reviewOutline env path options project again document (Outline.ofLayout layout entries) from
    congrArg (reviewOutline env path options project again document) outline]
  refine ⟨hok, hremarks.trans ?_⟩
  exact congrArg (List.map (Remark.diagnostic path)) quiet

theorem exists_projectDirectory_of_text {report : Report} (completed : (text env path options content).outcome = .ok report) :
    ∃ directory, projectDirectory env options path = .ok directory := by
  cases hrun : (run env path options (Document.parse content)).outcome with
  | error fault => simp [text, hrun, Except.map] at completed
  | ok result => exact exists_directory_of_run hrun

theorem outcome_text_of_none (hrun : (run env path options (Document.parse content)).outcome = .ok none) :
    (text env path options content).outcome =
      .ok { diagnostics := (run env path options (Document.parse content)).diagnostics, content, changed := false } := by
  simp only [text, hrun, Except.map]

/-- A text that was fixed without a remark is not remarked on any more. -/
theorem text_lint_after_fix {report : Report} (fix : options.fix) (noAdd : options.add = none)
    (distinct : (((Outline.ofNodes (Document.parse content).children).releases.filterMap Release.version?).map
      Text.lowercase).Nodup)
    (legible : ∀ blocks, (run env path options (Document.parse content)).outcome = .ok (some blocks) → IsLegible blocks)
    (completed : (text env path options content).outcome = .ok report) (quiet : report.diagnostics = []) :
    (text env path (lintOnly options) report.content).outcome =
      .ok { diagnostics := [], content := report.content, changed := false } := by
  cases hpath : isReviewed path with
  | false =>
      obtain ⟨directory, hdirectory⟩ := exists_projectDirectory_of_text completed
      obtain ⟨hrun, hremarks⟩ := @run_of_not_isReviewed env path options (Document.parse content) directory hpath hdirectory
      obtain ⟨hrun', hremarks'⟩ :=
        @run_of_not_isReviewed env path (lintOnly options) (Document.parse content) directory hpath hdirectory
      obtain rfl := Except.ok.inj ((outcome_text_of_none hrun).symm.trans completed)
      have nothing : (run env path (lintOnly options) (Document.parse content)).diagnostics = [] :=
        hremarks'.trans (hremarks.symm.trans quiet)
      rw [outcome_text_of_none hrun', nothing]
  | true =>
      obtain ⟨result, hrun⟩ : ∃ result, (run env path options (Document.parse content)).outcome = .ok result := by
        cases hrun : (run env path options (Document.parse content)).outcome with
        | error fault => simp [text, hrun, Except.map] at completed
        | ok result => exact ⟨result, rfl⟩
      obtain ⟨blocks, rfl⟩ := Option.isSome_iff_exists.mp (isSome_of_run_fix fix hpath hrun)
      obtain rfl := Except.ok.inj ((outcome_text_of_run hrun rfl).symm.trans completed)
      have hlegible := legible blocks hrun
      let root : Node := { Document.parse content with children := blocks }
      obtain ⟨-, hroot, project, hproject, ordered, releases, definitions, h, rfl⟩ := (outcome_run_fix fix noAdd).mp hrun
      obtain ⟨kept, fine⟩ := h.isFine fix noAdd hpath hroot hproject quiet
      have hproject' : (projectOf env path (lintOnly options)).outcome = .ok project := hproject
      -- the print is looked into as what was written, with the same project
      obtain ⟨hlint, hremarks⟩ := @run_lint env path (lintOnly options) (Document.parse (Document.print root)) project rfl
        hpath rfl hproject'
      obtain ⟨⟨o', hok⟩, nothing⟩ := @IsFix.reviewOutline_again env path (lintOnly options) root _ _ _ _ _ _ _ h
        kept fine distinct rfl hlegible rfl (fetchOf env path (lintOnly options)) (Document.parse (Document.print root))
      rw [hok] at hlint
      rw [outcome_text_of_none hlint, hremarks, nothing]

theorem IsFine.isDated {r : Release} (fine : IsFine r) : IsDated r := by
  obtain ⟨version, hversion, known⟩ := fine.clear.version
  intro shown hshown
  obtain rfl : version = shown := Option.some.inj (hversion.symm.trans (Option.eq_some_of_filter_eq_some hshown))
  by_cases same : version = unreleased
  · exact .inl same
  · have released : r.isUnreleased = false := decide_eq_false (by simpa [hversion] using same)
    obtain ⟨date, hdate, filled, isDate⟩ := fine.date released
    exact .inr ⟨known.resolve_left same, (shownDate_of_date hdate filled).symm ▸ isDate⟩

/-- A steady text can be told from its print when it is fixed without a remark. -/
theorem isLegible_of_isSteady (fix : options.fix) (noAdd : options.add = none)
    (plain : ∀ project, (projectOf env path options).outcome = .ok project → project.IsPlain)
    (steady : Document.IsSteady content) (quiet : (run env path options (Document.parse content)).diagnostics = []) :
    ∀ blocks, (run env path options (Document.parse content)).outcome = .ok (some blocks) → IsLegible blocks := by
  intro blocks hrun
  obtain ⟨hpath, hroot, project, hproject, ordered, releases, definitions, h, rfl⟩ := (outcome_run_fix fix noAdd).mp hrun
  obtain ⟨kept, fine⟩ := h.isFine fix noAdd hpath hroot hproject quiet
  have steady : IsSteadyFix env.sorting path project _ content ordered releases definitions :=
    ⟨h, kept, plain project hproject, steady, fun r hr => (fine r hr).isDated⟩
  refine ⟨steady.isClosed, fun block hblock hkind => ?_, fun r hr => ?_⟩
  · exact ⟨(steady.comesBack hblock).readsBack, (steady.comesBack hblock).url hkind⟩
  · have hr := List.mem_of_getLast? hr
    have placed : IsPlaced r := isPlaced_of_mem_ofNodes hr
    exact (steady.comesBack (mem_of_mem_release hr List.mem_cons_self)).said (Node.kind_of_headingDepth?_isSome placed.heading)

/-! ### Texts that are fixed without a remark -/

open Text (ofString)

def quietText : Text :=
  ofString "# Changelog\n\n## 2.0.0 - 2020-02-02\n\n### Added\n\n- a\n\n## 1.0.0 - 2020-01-01\n\n### Added\n\n- b\n"

def quietFixedText : Text :=
  ofString "# Changelog\n\n## [2.0.0] - 2020-02-02\n\n### Added\n\n- a\n\n" ++
    ofString "## 1.0.0 - 2020-01-01\n\n### Added\n\n- b\n\n[2.0.0]: https://github.com/a/b/compare/v1.0.0...v2.0.0\n"

/-- Is a text fixed without a remark, and what is it then? -/
def IsFixedQuietly (content fixed : Text) : Prop :=
  let o := Outline.ofNodes (Document.parse content).children
  IsOrdered sampleProject o ∧ remarksAfter [] (Release.relate o.releases) = [] ∧
    Document.print { Document.parse content with children := (linkedOutline sampleProject o).nodes } = fixed

instance (content fixed : Text) : Decidable (IsFixedQuietly content fixed) := inferInstanceAs (Decidable (_ ∧ _ ∧ _))

theorem IsFixedQuietly.outcome_text {fixed : Text} (h : IsFixedQuietly content fixed) :
    (text sampleEnvironment none sampleOptions content).outcome =
      .ok { diagnostics := [], content := fixed, changed := decide (fixed ≠ content) } := by
  obtain ⟨ordered, quiet, printed⟩ := h
  rw [outcome_text_of_isOrdered rfl rfl rfl found_sample ⟨ordered, printed⟩,
    diagnostics_run_of_isOrdered rfl rfl rfl rfl found_sample ordered quiet]

theorem isSteady_quietText : Document.IsSteady quietText :=
  .of_written (by decide +kernel) (by decide +kernel) (by decide +kernel) (by decide +kernel)

theorem text_lint_after_fix_sample : (text sampleEnvironment none (lintOnly sampleOptions) quietFixedText).outcome =
    .ok { diagnostics := [], content := quietFixedText, changed := false } := by
  have fixed : IsFixedQuietly quietText quietFixedText := by decide +kernel
  have quiet : (run sampleEnvironment none sampleOptions (Document.parse quietText)).diagnostics = [] :=
    diagnostics_run_of_isOrdered rfl rfl rfl rfl found_sample fixed.1 fixed.2.1
  have legible := isLegible_of_isSteady rfl rfl (fun _ => isPlain_of_projectOf_sample) isSteady_quietText quiet
  exact @text_lint_after_fix sampleEnvironment none sampleOptions quietText ⟨[], quietFixedText, _⟩ rfl rfl
    (by decide +kernel) legible fixed.outcome_text rfl

/-! ### Texts that are remarked on later -/

/-- Is a text fixed without a remark, and is there something to remark on when it is read again? -/
def IsRemarkedOnLater (content : Text) : Prop :=
  ∃ report again, (text sampleEnvironment none sampleOptions content).outcome = .ok report ∧ report.diagnostics = [] ∧
    (text sampleEnvironment none (lintOnly sampleOptions) report.content).outcome = .ok again ∧ again.diagnostics ≠ []

theorem IsFixedQuietly.isRemarkedOnLater {fixed : Text} (h : IsFixedQuietly content fixed)
    (remarked : let o := Outline.ofNodes (Document.parse fixed).children
      o.hasTitle ∧ Release.isSorted o.releases = .ok true ∧ o.definitions.isSorted = .ok true ∧
        remarksAfter [] (Release.relate o.releases) ++ linkRemarks sampleProject o.definitions (Release.relate o.releases) ≠ []) :
    IsRemarkedOnLater content := by
  obtain ⟨titled, sorted, comparable, remarked⟩ := remarked
  have found : (projectOf sampleEnvironment none (lintOnly sampleOptions)).outcome = .ok sampleProject := found_sample
  obtain ⟨hlint, hremarks⟩ := @run_lint sampleEnvironment none (lintOnly sampleOptions) (Document.parse fixed) sampleProject rfl
    rfl rfl found
  obtain ⟨hok, hdiagnostics⟩ := @reviewOutline_lint sampleEnvironment none (lintOnly sampleOptions) (Document.parse fixed)
    sampleProject (fetchOf sampleEnvironment none (lintOnly sampleOptions)) _ true rfl titled sorted comparable
  rw [hok] at hlint
  refine ⟨_, _, h.outcome_text, rfl, outcome_text_of_none hlint, ?_⟩
  rw [hremarks, hdiagnostics]
  simpa [orderRemarks] using remarked

def releasesText (newer rest : Text) : Text :=
  ofString "# Changelog\n\n## " ++ newer ++ ofString " - 2020-02-02\n\n### Added\n\n- a\n\n" ++
    ofString "## 1.0.0 - 2020-01-01\n\n### Added\n\n" ++ rest

def releaseText (heading : Text) : Text := ofString "# Changelog\n\n## " ++ heading ++ ofString "\n\n### Added\n\n- a\n"

def casesText : Text :=
  ofString "# Changelog\n\n## 1.0.0-rc - 2020-02-02\n\n### Added\n\n- a\n\n" ++
    ofString "## 1.0.0-RC - 2020-01-01\n\n### Added\n\n- b\n\n" ++
    ofString "## 0.1.0 - 2019-01-01\n\n### Added\n\n- c\n"

def casesFixedText : Text :=
  ofString "# Changelog\n\n## [1.0.0-rc] - 2020-02-02\n\n### Added\n\n- a\n\n" ++
    ofString "## [1.0.0-RC] - 2020-01-01\n\n### Added\n\n- b\n\n" ++
    ofString "## 0.1.0 - 2019-01-01\n\n### Added\n\n- c\n\n" ++
    ofString "[1.0.0-rc]: https://github.com/a/b/compare/v0.1.0...v1.0.0-RC\n"

/-- Not all of what is fixed without a remark is left without one: code that is not closed takes in the definition behind
    it, two versions can have one definition, a definition can be written so that it takes in the next one, and the
    heading of the oldest release can be written so that it says something else. -/
theorem isRemarkedOnLater_samples :
    IsRemarkedOnLater (releasesText (ofString "2.0.0") (ofString "```\nb\n")) ∧ IsRemarkedOnLater casesText ∧
      IsRemarkedOnLater (releasesText (ofString "2.0.0") (ofString "- b\n\n[9.0.0]: /u 'a\"b'\n")) ∧
      IsRemarkedOnLater (releaseText (ofString "[1.0.0](<a b>) - 2020-01-01")) := by
  have unclosed : IsFixedQuietly (releasesText (ofString "2.0.0") (ofString "```\nb\n"))
      (releasesText (ofString "[2.0.0]")
        (ofString "```\nb\n\n[2.0.0]: https://github.com/a/b/compare/v1.0.0...v2.0.0\n")) := by decide +kernel
  have cases : IsFixedQuietly casesText casesFixedText := by decide +kernel
  have quoted : IsFixedQuietly (releasesText (ofString "2.0.0") (ofString "- b\n\n[9.0.0]: /u 'a\"b'\n"))
      (releasesText (ofString "[2.0.0]")
        (ofString "- b\n\n[9.0.0]: /u \"a\"b\"\n[2.0.0]: https://github.com/a/b/compare/v1.0.0...v2.0.0\n")) := by decide +kernel
  have angled : IsFixedQuietly (releaseText (ofString "[1.0.0](<a b>) - 2020-01-01"))
      (releaseText (ofString "[1.0.0](a b) - 2020-01-01")) := by decide +kernel
  exact ⟨unclosed.isRemarkedOnLater (by decide +kernel), cases.isRemarkedOnLater (by decide +kernel),
    quoted.isRemarkedOnLater (by decide +kernel), angled.isRemarkedOnLater (by decide +kernel)⟩

end Review

end Changelog
