import Changelog.Proofs.Markdown.Reference
import Changelog.Proofs.Review.Address
import Changelog.Proofs.Review.Ordered

/-! # Where the links of releases lead

A review looks for the definition of a release link under the version of the release. In a document on which it does not
remark that definition leads to the comparison with the next older release. The link leads there too if it is found by
the text that it shows; one that is written in full has a label of its own, which the review does not look at.
-/

namespace Changelog

/-- Where a reference leads: the address of the definition that its identifier finds. -/
def Definitions.target? (definitions : Definitions) (reference : Node) : Option Text :=
  reference.identifier.bind fun identifier => (definitions.find? identifier).bind Node.url

/-! ## What a linked heading shows -/

namespace ReleaseHeading

variable {nodes after : List Node} {kind : Kind} {shown version : Text}

theorem link_ofPlain (text : Text) : (ofPlain text).link = none := by
  unfold ofPlain
  split
  · rfl
  · split <;> rfl

theorem link_ofLinked (kind : Kind) (shown : Text) (after : List Node) : (ofLinked kind shown after).link = some kind := by
  unfold ofLinked
  split
  · rfl
  · split <;> rfl
  · rfl

/-- A linked version is the text that is shown, or that text is the whole title and speaks of what is not released yet. -/
theorem version_ofLinked (h : (ofLinked kind shown after).version = some version) :
    version = shown ∨ version = unreleased ∧ (ofLinked kind shown after).title = some shown := by
  unfold ofLinked at h ⊢
  split at h
  · split at h
    · exact Or.inr ⟨(Option.some.inj h).symm, rfl⟩
    · exact Or.inl (Option.some.inj h).symm
  · split at h
    · exact Or.inl (Option.some.inj h).symm
    · contradiction
  · contradiction

theorem exists_of_link (h : (ofNodes nodes).link = some kind) : ∃ first after child, nodes = first :: after ∧
    first.kind = kind ∧ first.soleChild? .text = some child ∧ ofNodes nodes = ofLinked kind (child.value.getD []) after := by
  cases nodes with
  | nil => contradiction
  | cons first after =>
      rw [ofNodes] at h
      split at h
      · rw [link_ofPlain] at h
        contradiction
      next notPlain =>
        split at h
        next linked =>
          split at h
          next child hchild =>
            rw [link_ofLinked] at h
            obtain rfl := Option.some.inj h
            refine ⟨first, after, child, rfl, rfl, hchild, ?_⟩
            rw [ofNodes, if_neg notPlain, if_pos linked, hchild]
          next => contradiction
        next => contradiction

end ReleaseHeading

namespace Release

theorem mem_relate_of_infix {r older : Release} {releases : List Release} (h : [r, older] <:+: releases) :
    { r with previous := older.version } ∈ relate releases := by
  obtain ⟨before, after, rfl⟩ := h
  induction before with
  | nil => exact List.mem_cons_self
  | cons first before ih => exact List.mem_cons_of_mem _ ih

end Release

namespace Review

variable {env : Environment} {path : Option Path} {options : Options} {project : Project} {o : Outline}
  {r older : Release} {content : Text} {report : Report} {definitions : Definitions}

/-- If nothing is wrong with its link, the heading of a release holds a reference, and the definition of its version
    leads to the comparison. -/
theorem of_linkFindings_eq_nil {link : Text × Text} (h : linkFindings project definitions false r = [])
    (hlink : link? r = some link) : r.link = some .linkReference ∧
      (definitions.find? (Text.lowercase link.1)).bind Node.url = some (compareUrl project link.1 link.2) := by
  unfold linkFindings at h
  rw [link?] at hlink
  rw [hlink] at h
  dsimp only at h
  split at h
  · contradiction
  next kind =>
    split at h
    next same => exact ⟨kind, same⟩
    · contradiction
  · contradiction

theorem exists_reference (placed : IsPlaced r) (clear : IsClear r) (settled : IsSettled r)
    (labelled : ∀ node ∈ r.heading.children, node.kind = .linkReference → ∃ label, node.RefersBy label)
    (hlink : r.link = some .linkReference) : ∃ version reference rest, r.version = some version ∧
      r.heading.children = reference :: rest ∧ reference.kind = .linkReference ∧
      (reference.form ≠ some .full → reference.identifier = some (Text.lowercase version)) := by
  obtain ⟨version, hversion, valid⟩ := clear.version
  have said : r.toReleaseHeading = ReleaseHeading.ofNodes r.heading.children := placed.read
  obtain ⟨reference, rest, child, hchildren, hkind, hchild, heading⟩ :=
    ReleaseHeading.exists_of_link ((congrArg ReleaseHeading.link said).symm.trans hlink)
  obtain ⟨label, refers⟩ := labelled reference (hchildren ▸ List.mem_cons_self) hkind
  refine ⟨version, reference, rest, hversion, hchildren, hkind, fun short => ?_⟩
  rw [refers.identifier]
  have value : child.value.getD [] = label := by rw [refers.shown short child hchild, Option.getD_some]
  rw [value, ← said] at heading
  have shown := ReleaseHeading.version_ofLinked ((congrArg ReleaseHeading.version heading).symm.trans hversion)
  rcases shown with rfl | ⟨rfl, title⟩
  · rw [Version.IsKnown.normalizeLabel_eq valid]
  · have unreleased : r.isUnreleased := by simp [Release.isUnreleased, hversion]
    have written : some label = some unreleasedText :=
      title.symm.trans ((congrArg ReleaseHeading.title heading).symm.trans (settled.title unreleased))
    rw [Option.some.inj written]
    decide

theorem IsClean.of_isInfix (clean : IsClean project o) (hpair : [r, older] <:+: o.releases) :
    ∃ version previous, r.version = some version ∧ older.version = some previous ∧ r.link = some .linkReference ∧
      (o.definitions.find? (Text.lowercase version)).bind Node.url = some (compareUrl project version previous) := by
  have fine := clean.isClear.1
  have hr : IsClear r := (fine r (hpair.subset List.mem_cons_self)).1
  have holder : IsClear older := (fine older (hpair.subset (List.mem_cons_of_mem r List.mem_cons_self))).1
  obtain ⟨version, hversion⟩ := Option.isSome_iff_exists.mp hr.version?_eq.2
  obtain ⟨previous, hprevious⟩ := Option.isSome_iff_exists.mp holder.version?_eq.2
  have linked := clean.linked
  rw [linkRemarks_eq (Release.relate_eq_self (List.forall₂_same.mpr fun _ _ => ⟨rfl, rfl⟩)),
    List.flatMap_eq_nil_iff] at linked
  have findings := List.map_eq_nil_iff.mp (linked _ (Release.mem_relate_of_infix hpair))
  have hlink : link? { r with previous := older.version } = some (version, previous) := by
    have hversion' : Release.version? { r with previous := older.version } = some version := hversion
    have hprevious' : older.version.filter (!·.isEmpty) = some previous := hprevious
    simp [link?, linkable?, hversion', hprevious']
  obtain ⟨kind, target⟩ := of_linkFindings_eq_nil findings hlink
  exact ⟨version, previous, hr.version?_eq.1.symm.trans hversion, holder.version?_eq.1.symm.trans hprevious, kind, target⟩

/-- If a review that fixes nothing reports nothing on a text, then every release but the oldest is headed by a link
    reference, and the definition of its version leads to the comparison with the next older release. So does the link
    itself if it is found under the version, as it is unless it is written in full. -/
theorem text_lint_linked (lint : options.fix = false) (hpath : isReviewed path)
    (completed : (text env path options content).outcome = .ok report) (clean : report.diagnostics = []) :
    let o := Outline.ofNodes (Document.parse content).children
    ∃ project, (projectOf env path options).outcome = .ok project ∧
      ∀ r older, [r, older] <:+: o.releases → ∃ version previous reference rest,
        r.version = some version ∧ older.version = some previous ∧
        r.heading.children = reference :: rest ∧ reference.kind = .linkReference ∧
        (o.definitions.find? (Text.lowercase version)).bind Node.url = some (compareUrl project version previous) ∧
        (reference.form ≠ some .full → reference.identifier = some (Text.lowercase version)) ∧
        (reference.identifier = some (Text.lowercase version) →
          o.definitions.target? reference = some (compareUrl project version previous)) := by
  intro o
  obtain ⟨project, hproject, hclean⟩ := isClean_of_text lint hpath completed clean
  refine ⟨project, hproject, fun r older hpair => ?_⟩
  have hr : r ∈ o.releases := hpair.subset List.mem_cons_self
  obtain ⟨hclear, hsettled⟩ := hclean.isClear.1 r hr
  have labelled : ∀ node ∈ r.heading.children, node.kind = .linkReference → ∃ label, node.RefersBy label := fun node =>
    Document.exists_refersBy_of_mem_parse (mem_of_mem_release hr List.mem_cons_self)
  obtain ⟨version, previous, hversion, hprevious, hlink, target⟩ := hclean.of_isInfix hpair
  obtain ⟨_, reference, rest, hversion', hchildren, hkind, found⟩ :=
    exists_reference (isPlaced_of_mem_ofNodes hr) hclear hsettled labelled hlink
  obtain rfl := Option.some.inj (hversion.symm.trans hversion')
  refine ⟨version, previous, reference, rest, hversion, hprevious, hchildren, hkind, target, found, fun own => ?_⟩
  rw [Definitions.target?, own]
  exact target

theorem text_lint_linked_clean :
    let o := Outline.ofNodes (Document.parse cleanText).children
    ∃ project, (projectOf sampleEnvironment none (lintOnly sampleOptions)).outcome = .ok project ∧
      ∀ r older, [r, older] <:+: o.releases → ∃ version previous reference rest,
        r.version = some version ∧ older.version = some previous ∧
        r.heading.children = reference :: rest ∧ reference.kind = .linkReference ∧
        (o.definitions.find? (Text.lowercase version)).bind Node.url = some (compareUrl project version previous) ∧
        (reference.form ≠ some .full → reference.identifier = some (Text.lowercase version)) ∧
        (reference.identifier = some (Text.lowercase version) →
          o.definitions.target? reference = some (compareUrl project version previous)) :=
  @text_lint_linked sampleEnvironment none (lintOnly sampleOptions) cleanText ⟨[], cleanText, false⟩ rfl rfl
    outcome_text_clean rfl

/-! ## A link that leads elsewhere -/

open Text (ofString)

/-- The newer release is headed by a reference in full, whose own label finds another definition. -/
def elsewhereText : Text :=
  ofString "# Changelog\n\n## [1.0.0][other] - 2020-01-01\n\n### Added\n\n- x\n\n" ++
    ofString "## 0.1.0 - 2019-01-01\n\n### Added\n\n- y\n\n" ++
    ofString "[1.0.0]: https://github.com/a/b/compare/v0.1.0...v1.0.0\n[other]: https://example.com\n"

/-- Nothing is reported, and the link does not lead to the comparison. -/
theorem text_lint_elsewhere :
    let o := Outline.ofNodes (Document.parse elsewhereText).children
    (text sampleEnvironment none (lintOnly sampleOptions) elsewhereText).outcome =
        .ok { diagnostics := [], content := elsewhereText, changed := false } ∧
      ¬∀ r older, [r, older] <:+: o.releases → ∃ version previous reference rest,
        r.version = some version ∧ older.version = some previous ∧
        r.heading.children = reference :: rest ∧ reference.kind = .linkReference ∧
        o.definitions.target? reference = some (compareUrl sampleProject version previous) := by
  intro o
  refine ⟨outcome_text_of_isClean rfl rfl found_sample (by decide +kernel), fun linked => ?_⟩
  obtain ⟨two, versions, leads⟩ : o.releases.length = 2 ∧
      o.releases.map (·.version) = [some (ofString "1.0.0"), some (ofString "0.1.0")] ∧
      ((o.releases.head?.bind fun r => r.heading.children.head?).bind o.definitions.target?) =
        some (ofString "https://example.com") := by decide +kernel
  obtain ⟨r, older, hreleases⟩ := List.length_eq_two.mp two
  obtain ⟨version, previous, reference, rest, hversion, hprevious, hchildren, -, target⟩ :=
    linked r older (hreleases ▸ List.infix_refl _)
  simp only [hreleases, List.map_cons, List.map_nil, List.cons.injEq, hversion, hprevious, Option.some.injEq] at versions
  simp only [hreleases, List.head?_cons, Option.bind_some, hchildren] at leads
  obtain ⟨rfl, rfl, -⟩ := versions
  rw [leads] at target
  exact absurd target (by decide +kernel)

end Review

end Changelog
