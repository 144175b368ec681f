import Changelog.Proofs.Review.Candidate
import Changelog.Proofs.Review.Report
import Changelog.Proofs.Version.Comparison

/-! # Reviews that fix nothing come to an end

Whatever a document says, a review that does not fix it comes to an end if it knows the project. The nodes that it looks
at keep their bounds, there is a child wherever it looks for one, and any two versions or keys can be compared, as long
as no candidate has a number with too many digits.
-/

namespace Changelog

/-! ## Looking for an order -/

namespace Outline

/-- The texts that a review compares: the versions of releases, and the keys of definitions. -/
def comparedTexts (o : Outline) : List Text := o.releases.filterMap Release.version? ++ o.definitions.keys

/-- Can any two of these texts be compared, and can those that are versions be read again for it? -/
structure IsComparable (o : Outline) : Prop where
  read : ∀ v ∈ o.comparedTexts, Version.isValid v → ∃ parsed, Version.read (Version.normalizeCandidate v) = .ok parsed
  compared : ∀ v ∈ o.comparedTexts, ∀ w ∈ o.comparedTexts, Version.compareNewest v w = .ok (Version.newestFirst v w)

/-- Is there a child wherever a review looks for one? A heading that says of a link begins with a link that shows a
    text, and the heading of a group has a text for its type. -/
structure IsAccessible (o : Outline) : Prop where
  leveled : ∀ r ∈ o.releases, r.heading.headingDepth?.isSome
  linked : ∀ r ∈ o.releases, r.link.isSome → ∃ link rest child,
    r.heading.children = link :: rest ∧ link.children = [child] ∧ child.value.isSome
  typed : ∀ r ∈ o.releases, ∀ group ∈ r.groups, group.hasGroupHeading → ∃ child,
    group.heading.children = [child] ∧ child.value = group.groupType? ∧ child.value.isSome

variable {o : Outline} {content : Text} {r : Release}

theorem isSome_value_of_soleChild? {parent child : Node} (within : parent.IsWithin (Document.parse content))
    (h : parent.soleChild? .text = some child) : parent.children = [child] ∧ child.value.isSome := by
  obtain ⟨hchildren, hkind⟩ := Node.children_of_soleChild? h
  have inner : child.IsWithin (Document.parse content) :=
    (Node.IsWithin.inside (hchildren ▸ List.mem_singleton_self child) .self).trans within
  exact ⟨hchildren, (Document.isLegal_of_isWithin_parse inner).filled hkind⟩

theorem isAccessible_ofNodes (content : Text) : (ofNodes (Document.parse content).children).IsAccessible where
  leveled _ hr := (Review.isPlaced_of_mem_ofNodes hr).heading
  linked r hr hlink := by
    obtain ⟨kind, hkind⟩ := Option.isSome_iff_exists.mp hlink
    have said := congrArg ReleaseHeading.link (Review.isPlaced_of_mem_ofNodes hr).read
    obtain ⟨link, rest, child, hchildren, -, hchild, -⟩ := ReleaseHeading.exists_of_link (said.symm.trans hkind)
    have within : link.IsWithin (Document.parse content) :=
      .inside (Review.mem_of_mem_release hr List.mem_cons_self) (.inside (hchildren ▸ List.mem_cons_self) .self)
    exact ⟨link, rest, child, hchildren, isSome_value_of_soleChild? within hchild⟩
  typed r hr group hgroup titled := by
    simp only [Section.hasGroupHeading, Bool.and_eq_true, decide_eq_true_eq] at titled
    obtain ⟨child, hchild⟩ := Option.isSome_iff_exists.mp titled.2
    have standing : group.heading ∈ r.stretch.nodes := by
      rw [Release.nodes_stretch, Section.nodes_eq]
      refine List.mem_append_right _ (Section.mem_nodesAll.mpr ⟨group, hgroup, ?_⟩)
      rw [Section.nodes_eq]
      exact List.mem_cons_self
    obtain ⟨hchildren, value⟩ := isSome_value_of_soleChild? (.inside (Review.mem_of_mem_release hr standing) .self) hchild
    exact ⟨child, hchildren, by rw [Section.groupType?, if_pos titled.1, hchild]; rfl, value⟩

theorem isComparable_of_hasShortCandidates (h : ∀ text ∈ o.comparedTexts, Version.HasShortCandidates text) :
    o.IsComparable where
  read _ _ valid := by
    obtain ⟨parsed, hread, -⟩ := Version.exists_read_normalizeCandidate valid
    exact ⟨parsed, hread⟩
  compared v hv w hw := Version.compareNewest_of_isComparable (h v hv).isComparable (h w hw).isComparable

theorem hasShortCandidates_of_mem_comparedTexts (h : Version.HasShortCandidates content) :
    ∀ text ∈ (ofNodes (Document.parse content).children).comparedTexts, Version.HasShortCandidates text := by
  intro text htext
  rcases List.mem_append.mp htext with htext | htext
  · obtain ⟨r, hr, hversion⟩ := List.mem_filterMap.mp htext
    exact hasShortCandidates_version h hr (Option.eq_some_of_filter_eq_some hversion)
  · exact hasShortCandidates_key h htext

end Outline

namespace Review

open Version

variable {env : Environment} {path : Option Path} {options : Options} {directory : Path} {sorting : Sorting} {o : Outline}
  {content : Text} {tags : List Text} {repository version url : Text}

/-- The order of an outline is found out if no text in it has too long a number. -/
theorem exists_isInspected_of_hasShortCandidates (h : ∀ text ∈ o.comparedTexts, HasShortCandidates text) :
    ∃ isOrdered isDefined releases, IsInspected sorting o isOrdered isDefined releases := by
  obtain ⟨versions, keys⟩ := List.forall_mem_append.mp h
  have comparable : anyClash (o.releases.filterMap Release.version?) = false :=
    anyClash_eq_false fun text htext => (versions text htext).hasLongCandidate_eq_false
  obtain ⟨isOrdered, ordered⟩ : ∃ isOrdered, Release.isSorted o.releases = .ok isOrdered :=
    exists_isSortedBy fun r hr s hs => ⟨_, Release.compareNewest_eq_ok comparable hr hs⟩
  obtain ⟨isDefined, defined⟩ : ∃ isDefined, o.definitions.isSorted = .ok isDefined :=
    exists_isSortedBy fun a ha b hb => ⟨_, compareNewest_of_isComparable (keys a ha).isComparable (keys b hb).isComparable⟩
  obtain ⟨sorted, hsorted⟩ := sorting.completes comparable
  exact ⟨isOrdered, isDefined, sorted, ordered, hsorted, defined⟩

/-- A review that fixes nothing comes to an end on every document without candidates that have too many digits, if the
    path leads somewhere and the options describe the project. All the nodes of the document are legal, its versions and
    keys can be compared, and there is a child wherever one is looked for. -/
theorem text_lint_completes (short : HasShortCandidates content) (lint : options.fix = false)
    (htags : options.tags = some tags) (hrepository : options.repository = some repository)
    (supported : Hosting.url? repository = some url) (hversion : options.version = some version) (valid : isValid version)
    (resolved : projectDirectory env options path = .ok directory) :
    (∀ node : Node, node.IsWithin (Document.parse content) → node.IsLegal) ∧
      (Outline.ofNodes (Document.parse content).children).IsComparable ∧
      (Outline.ofNodes (Document.parse content).children).IsAccessible ∧
      ∃ diagnostics, (text env path options content).outcome = .ok { diagnostics, content, changed := false } := by
  have compared := Outline.hasShortCandidates_of_mem_comparedTexts short
  refine ⟨fun _ => Document.isLegal_of_isWithin_parse, Outline.isComparable_of_hasShortCandidates compared,
    Outline.isAccessible_ofNodes content, ?_⟩
  cases hpath : isReviewed path with
  | false => exact ⟨_, outcome_text_of_none (run_of_not_isReviewed hpath resolved).1⟩
  | true =>
      have filled : repository ≠ [] := by
        rintro rfl
        have unsupported : Hosting.url? [] = none := by decide
        simp [unsupported] at supported
      have found : (projectOf env path options).outcome = .ok { tags, url, version } := by
        rw [projectOf_eq resolved]
        exact outcome_findProject_of_given directory htags hrepository hversion filled valid supported
      obtain ⟨isOrdered, isDefined, releases, inspected⟩ := exists_isInspected_of_hasShortCandidates compared
      exact ⟨_, inspected.outcome_text lint hpath found⟩

def docsPath : Path := Path.ofText (Text.ofString "docs/CHANGELOG.md")

/-- A document with versions that have to be compared. -/
theorem text_lint_completes_sample :
    HasShortCandidates cleanText ∧ (lintOnly sampleOptions).fix = false ∧ (lintOnly sampleOptions).tags = some [] ∧
      (lintOnly sampleOptions).repository = some (Text.ofString "a/b") ∧
      Hosting.url? (Text.ofString "a/b") = some (Text.ofString "https://github.com/a/b") ∧
      (lintOnly sampleOptions).version = some (Text.ofString "1.0.0") ∧ isValid (Text.ofString "1.0.0") ∧
      projectDirectory sampleEnvironment (lintOnly sampleOptions) (some docsPath) =
        .ok (Path.ofText (Text.ofString "docs")) ∧
      (∀ node : Node, node.IsWithin (Document.parse cleanText) → node.IsLegal) ∧
      (Outline.ofNodes (Document.parse cleanText).children).IsComparable ∧
      (Outline.ofNodes (Document.parse cleanText).children).IsAccessible ∧
      ∃ diagnostics, (text sampleEnvironment (some docsPath) (lintOnly sampleOptions) cleanText).outcome =
        .ok { diagnostics, content := cleanText, changed := false } := by
  have short : HasShortCandidates cleanText := hasShortCandidates_of_length (by decide +kernel)
  have supported : Hosting.url? (Text.ofString "a/b") = some (Text.ofString "https://github.com/a/b") := by decide +kernel
  have valid : isValid (Text.ofString "1.0.0") := by decide +kernel
  have resolved : projectDirectory sampleEnvironment (lintOnly sampleOptions) (some docsPath) =
      .ok (Path.ofText (Text.ofString "docs")) := by decide +kernel
  exact ⟨short, rfl, rfl, rfl, supported, rfl, valid, resolved,
    text_lint_completes short rfl rfl rfl supported rfl valid resolved⟩

def nullPath : Path := Path.ofText (Text.ofString "a\x00b/CHANGELOG.md")

/-- A path that leads nowhere is found out before the document is looked into. -/
theorem text_lint_unresolved :
    HasShortCandidates (Text.ofString "# Changelog\n") ∧ (lintOnly sampleOptions).fix = false ∧ (lintOnly sampleOptions).tags = some [] ∧
      (lintOnly sampleOptions).repository = some (Text.ofString "a/b") ∧
      Hosting.url? (Text.ofString "a/b") = some (Text.ofString "https://github.com/a/b") ∧
      (lintOnly sampleOptions).version = some (Text.ofString "1.0.0") ∧ isValid (Text.ofString "1.0.0") ∧
      (text sampleEnvironment (some nullPath) (lintOnly sampleOptions) (Text.ofString "# Changelog\n")).outcome =
        .error (.file .nullCharacter) := by
  have short : HasShortCandidates (Text.ofString "# Changelog\n") := hasShortCandidates_of_length (by decide +kernel)
  have unresolved : projectDirectory sampleEnvironment (lintOnly sampleOptions) (some nullPath) =
      .error (.file .nullCharacter) := by decide +kernel
  refine ⟨short, rfl, rfl, rfl, by decide +kernel, rfl, by decide +kernel, ?_⟩
  simp [text, run, unresolved, Except.bind, Except.map]

end Review

end Changelog
