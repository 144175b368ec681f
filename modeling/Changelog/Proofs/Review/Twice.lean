import Changelog.Proofs.Review.Again
import Changelog.Proofs.Review.Steady

/-! # Fixing a text twice

A text that was fixed comes out of fixing as it went in, if what was printed can be told from its print.
-/

namespace Changelog

namespace Review

variable {env : Environment} {path : Option Path} {options : Options} {project : Project} {fetch : Fetch}
  {sorting : Sorting} {ordered releases : List Release} {definitions : Definitions} {blocks : List Node} {content : Text}

/-- A document whose blocks can be told again from their print: no list, code or HTML goes on with what is printed behind
    it, the blocks that are written from their parts read back and are written as before, and the headings of the
    releases say the same. What a steady text is fixed to is one (`isReprintable_of_isSteady`). -/
structure IsReprintable (blocks : List Node) : Prop where
  closed : Document.IsClosed blocks
  composed : ∀ block ∈ blocks, block.isComposed → block.ReadsBack ∧ (block.reread 1).blockText = block.blockText
  told : ∀ r ∈ (Outline.ofNodes blocks).releases,
    ReleaseHeading.ofNodes (r.heading.reread 1).children = ReleaseHeading.ofNodes r.heading.children

instance (blocks : List Node) : Decidable (IsReprintable blocks) :=
  decidable_of_iff (Document.IsClosed blocks ∧
      (∀ block ∈ blocks, block.isComposed → block.ReadsBack ∧ (block.reread 1).blockText = block.blockText) ∧
      ∀ r ∈ (Outline.ofNodes blocks).releases,
        ReleaseHeading.ofNodes (r.heading.reread 1).children = ReleaseHeading.ofNodes r.heading.children)
    ⟨fun ⟨closed, composed, told⟩ => ⟨closed, composed, told⟩, fun ⟨closed, composed, told⟩ => ⟨closed, composed, told⟩⟩

/-- A steady text whose releases are not empty can be told from its print when it is fixed. -/
theorem isReprintable_of_isSteady (fix : options.fix) (noAdd : options.add = none)
    (plain : ∀ project, (projectOf env path options).outcome = .ok project → project.IsPlain)
    (steady : Document.IsSteady content)
    (listed : ∀ r ∈ (Outline.ofNodes (Document.parse content).children).releases, r.isEmpty = false ∧ IsDated r) :
    ∀ blocks, (run env path options (Document.parse content)).outcome = .ok (some blocks) → IsReprintable blocks := by
  intro blocks hrun
  obtain ⟨-, -, project, hproject, ordered, releases, definitions, h, rfl⟩ := (outcome_run_fix fix noAdd).mp hrun
  have kept := h.eq_relate fun r hr => (listed r hr).1
  have dated : ∀ r ∈ releases, IsDated r := by
    intro r hr
    rw [kept] at hr
    obtain ⟨q, hq, previous, rfl⟩ := Release.exists_of_mem_relate hr
    have dated : IsDated q := (listed q ((env.sorting.perm h.arranged).mem_iff.mp hq)).2
    exact dated
  have steady : IsSteadyFix env.sorting path project _ content ordered releases definitions :=
    ⟨h, kept, plain project hproject, steady, dated⟩
  refine ⟨steady.isClosed, fun block hblock _ => ?_, fun r hr => ?_⟩
  · exact ⟨(steady.comesBack hblock).readsBack, (steady.comesBack hblock).text⟩
  · have placed : IsPlaced r := isPlaced_of_mem_ofNodes hr
    exact (steady.comesBack (mem_of_mem_release hr List.mem_cons_self)).said (Node.kind_of_headingDepth?_isSome placed.heading)

theorem IsFix.forall₂_isKept
    (h : IsFix sorting path project fetch (Outline.ofNodes (Document.parse content).children) ordered releases definitions)
    {root : Node}
    (hroot : root.children = (fixedOutline (Outline.ofNodes (Document.parse content).children) releases definitions).nodes)
    (reprintable : IsReprintable root.children) :
    List.Forall₂ Node.IsKept root.children (Document.parse (Document.print root)).children ∧
      Document.contacts (Document.parse (Document.print root)).children = Document.contacts root.children := by
  obtain ⟨again, touch⟩ := h.forall₂_isAgain hroot reprintable.closed fun block hblock _ hcomposed =>
    (reprintable.composed block hblock hcomposed).1
  have text : ∀ node ∈ root.children, (node.reread 1).blockText = node.blockText := by
    intro node hnode
    have drawn : node.IsDrawnFrom (Text.lines content) := h.isDrawnFrom (hroot ▸ hnode)
    exact drawn.blockText_reread (fun _ => Text.isUnbroken_of_mem_lines) fun hcomposed =>
      (reprintable.composed node hnode hcomposed).2
  refine ⟨((List.forall₂_and_left _ _).mpr ⟨text, again⟩).imp ?_, touch⟩
  rintro node other ⟨htext, hagain⟩
  exact ⟨hagain, hagain.blockText_eq.trans htext⟩

theorem IsFix.told (h : IsFix sorting path project fetch (Outline.ofNodes blocks) ordered releases definitions)
    (later : ∀ r ∈ releases.tail, r.heading.startsRelease)
    (reprintable : IsReprintable (fixedOutline (Outline.ofNodes blocks) releases definitions).nodes) :
    ∀ r ∈ releases, IsTold r := by
  intro r hr
  have told := reprintable.told
  rw [h.ofNodes_nodes later] at told
  obtain ⟨s, hs, hrs⟩ := exists_left_of_forall₂ (forall₂_isReread fun r => h.isPlaced).flip hr
  have said := told s hs
  rw [hrs.heading] at said
  exact said

/-- A document that was fixed comes out of fixing as it went in. -/
theorem text_fix_again {report : Report} (fix : options.fix) (noAdd : options.add = none)
    (transitive : IsTransitiveOn Release.newestFirst (Outline.ofNodes (Document.parse content).children).releases)
    (later : ∀ r ∈ (stableSort Release.newestFirst (Outline.ofNodes (Document.parse content).children).releases).tail,
      r.heading.startsRelease)
    (reprintable : ∀ blocks, (run env path options (Document.parse content)).outcome = .ok (some blocks) → IsReprintable blocks)
    (completed : (text env path options content).outcome = .ok report) :
    ∃ again, (text env path options report.content).outcome = .ok again ∧ again.content = report.content ∧
      again.changed = false := by
  cases hrun : (run env path options (Document.parse content)).outcome with
  | error fault => simp [text, hrun, Except.map] at completed
  | ok result =>
      cases result with
      | none =>
          have unchanged : report.content = content := by
            simp only [text, hrun, Except.map, Except.ok.injEq] at completed
            rw [← completed]
          refine ⟨{ diagnostics := (run env path options (Document.parse content)).diagnostics, content, changed := false },
            ?_, unchanged.symm, rfl⟩
          rw [unchanged]
          simp only [text, hrun, Except.map]
      | some blocks =>
          have hcontent : report.content = Document.print { Document.parse content with children := blocks } := by
            rw [← Except.ok.inj ((outcome_text_of_run hrun rfl).symm.trans completed)]
          have hreprint := reprintable blocks hrun
          obtain ⟨hpath, hkind, project, hproject, ordered, releases, definitions, h, hblocks⟩ := (outcome_run_fix fix noAdd).mp hrun
          rw [(env.sorting.sorts h.arranged transitive).1] at later
          have later' := h.startsRelease_of_mem_tail later
          obtain ⟨kept, touch⟩ := @IsFix.forall₂_isKept _ _ _ _ _ _ _ _ h
            { Document.parse content with children := blocks } hblocks hreprint
          rw [← hcontent] at kept touch
          rw [hblocks] at kept touch hreprint
          obtain ⟨_, others, rest, h', written, placed⟩ := h.exists_again transitive later' (h.told later' hreprint) kept
          have hrun' := (outcome_run_fix fix noAdd).mpr ⟨hpath, rfl, project, hproject, _, others, rest, h', rfl⟩
          -- each block is written as before, and where it touches the same blocks
          have touch' := Document.contacts_eq placed (written.imp fun _ _ hlike => ⟨hlike.kind, hlike.place⟩) touch
          have texts := map_eq_map_of_forall₂ (written.imp fun _ _ hlike => hlike.text)
          have same := Document.blocksText_congr texts touch'
          have printed : Document.print { Document.parse report.content with
              children := (fixedOutline (Outline.ofNodes (Document.parse report.content).children) others rest).nodes } =
              report.content := by
            refine Eq.trans (print_congr ?_ ?_ (List.cons_ne_nil _ _)) hcontent.symm
            · rw [hblocks]
              exact same
            · rw [hblocks]
              exact List.cons_ne_nil _ _
          exact ⟨_, outcome_text_of_run hrun' printed, rfl, decide_eq_false (not_not_intro rfl)⟩

/-! ### Documents that are fixed twice -/

open Text (ofString)

def sampleText : Text := ofString "## 1.1.0 - 2024-02-02\n\n- b\n\n## 1.0.0 - 2024-01-01\n\n- a\n"

def sampleFixedText : Text :=
  ofString "# Changelog\n\n## [1.1.0] - 2024-02-02\n\n- b\n\n## 1.0.0 - 2024-01-01\n\n- a\n\n" ++
    ofString "[1.1.0]: https://github.com/a/b/compare/v1.0.0...v1.1.0\n"

theorem isPlain_of_projectOf_sample {project : Project}
    (found : (projectOf sampleEnvironment none sampleOptions).outcome = .ok project) : project.IsPlain := by
  obtain rfl := Except.ok.inj (found_sample.symm.trans found)
  exact ⟨by decide +kernel, by decide⟩

theorem isSteady_sampleText : Document.IsSteady sampleText :=
  .of_written (by decide +kernel) (by decide +kernel) (by decide +kernel) (by decide +kernel)

theorem text_fix_again_sample : ∃ again,
    (text sampleEnvironment none sampleOptions sampleFixedText).outcome = .ok again ∧ again.content = sampleFixedText ∧
      again.changed = false := by
  let o := Outline.ofNodes (Document.parse sampleText).children
  obtain ⟨ordered, clear, printed⟩ : IsOrdered sampleProject o ∧
      (∀ r ∈ o.releases, r.version?.isSome ∧ r.heading.startsRelease ∧ r.isEmpty = false ∧ IsDated r) ∧
      Document.print { Document.parse sampleText with children := (linkedOutline sampleProject o).nodes } =
        sampleFixedText := by decide +kernel
  have hrun : (run sampleEnvironment none sampleOptions (Document.parse sampleText)).outcome =
      .ok (some (linkedOutline sampleProject o).nodes) := outcome_run_of_isOrdered rfl rfl rfl rfl found_sample ordered
  have later : ∀ r ∈ (stableSort Release.newestFirst o.releases).tail, r.heading.startsRelease := by
    rw [stableSort_of_pairwise ordered.ordered]
    exact fun r hr => (clear r (List.mem_of_mem_tail hr)).2.1
  have told := isReprintable_of_isSteady rfl rfl (fun _ => isPlain_of_projectOf_sample) isSteady_sampleText fun r hr =>
    (clear r hr).2.2
  exact @text_fix_again sampleEnvironment none sampleOptions sampleText ⟨_, sampleFixedText, _⟩ rfl rfl
    (Release.isTransitiveOn_newestFirst fun r hr => (clear r hr).1) later told (outcome_text_of_run hrun printed)

/-! ### Code that does not end -/

/-- The oldest release ends with code that is not closed. -/
def unclosedText : Text := ofString "## 1.1.0 - 2024-02-02\n\n- b\n\n## 1.0.0 - 2024-01-01\n\n```\na\n"

def definitionText : Text := ofString "\n[1.1.0]: https://github.com/a/b/compare/v1.0.0...v1.1.0\n"

def swallowedText : Text :=
  ofString "# Changelog\n\n## [1.1.0] - 2024-02-02\n\n- b\n\n## 1.0.0 - 2024-01-01\n\n```\na\n" ++ definitionText

theorem outcome_text_of_isOrdered {content fixed : Text} (fix : options.fix) (noAdd : options.add = none)
    (hpath : isReviewed path)
    (hproject : (projectOf env path options).outcome = .ok project)
    (h : IsOrdered project (Outline.ofNodes (Document.parse content).children) ∧
      Document.print { Document.parse content with
        children := (linkedOutline project (Outline.ofNodes (Document.parse content).children)).nodes } = fixed) :
    (text env path options content).outcome = .ok
      { diagnostics := (run env path options (Document.parse content)).diagnostics, content := fixed,
        changed := decide (fixed ≠ content) } :=
  outcome_text_of_run (outcome_run_of_isOrdered fix noAdd hpath rfl hproject h.1) h.2

/-- Fixing such a document does not settle it: what was the definition is code now, and another one is written. -/
theorem text_fix_unclosed : ∃ report again, (text sampleEnvironment none sampleOptions unclosedText).outcome = .ok report ∧
    (text sampleEnvironment none sampleOptions report.content).outcome = .ok again ∧ again.content ≠ report.content := by
  have first := @outcome_text_of_isOrdered sampleEnvironment none sampleOptions sampleProject unclosedText swallowedText
    rfl rfl rfl found_sample (by decide +kernel)
  have second := @outcome_text_of_isOrdered sampleEnvironment none sampleOptions sampleProject swallowedText
    (swallowedText ++ definitionText) rfl rfl rfl found_sample (by decide +kernel)
  exact ⟨_, _, first, second, by decide +kernel⟩

end Review

end Changelog
