import Changelog.Proofs.History.Silent
import Changelog.Proofs.Review.Fix

/-! # What is remarked on without fixing

A review that does not fix changes nothing, and what it reports can be told from the outline alone.
-/

namespace Changelog

/-! ## Finding the project -/

theorem Manifest.diagnostics_load (files : Files) (directory : Path) :
    (Manifest.load files directory).diagnostics = [] := by
  unfold Manifest.load
  split
  · rw [Action.diagnostics_map, Action.diagnostics_ofExcept]
  · rfl

namespace Review

variable {env : Environment} {path : Option Path} {options : Options} {root : Node} {project : Project} {fetch : Fetch}
  {sorting : Sorting} {schedule : List Nat} {fix : Bool} {o : Outline} {r : Release} {releases : List Release} {seen : List Text}

theorem diagnostics_findTags (directory : Path) : (findTags env options directory).diagnostics = [] := by
  unfold findTags
  split
  · rfl
  · refine Action.diagnostics_bind_eq_nil ?_ fun answer => ?_
    · rw [Action.diagnostics_attemptGit, Git.diagnostics_tags]
    · cases answer <;> rfl

theorem diagnostics_findDeclarations (directory : Path) (tags : List Text) :
    (findDeclarations env options directory tags).diagnostics = [] := by
  unfold findDeclarations
  dsimp only
  split
  all_goals
    refine Action.diagnostics_bind_eq_nil ?_ fun manifest => ?_
    · first | rfl | exact Manifest.diagnostics_load _ _
    split
    all_goals
      refine Action.diagnostics_bind_eq_nil ?_ fun repository => ?_
      · first | rfl | rw [Action.diagnostics_map, Git.diagnostics_remoteUrl]
      split
      all_goals
        refine Action.diagnostics_bind_eq_nil ?_ fun version => rfl
        first | rfl | rw [Action.diagnostics_map, Action.diagnostics_ofExcept]

theorem diagnostics_findProject (directory : Path) : (findProject env options directory).diagnostics = [] :=
  Action.diagnostics_bind_eq_nil (diagnostics_findTags directory) fun tags =>
    Action.diagnostics_bind_eq_nil (diagnostics_findDeclarations directory tags) fun _ => rfl

theorem diagnostics_run (hpath : isReviewed path) (hroot : root.kind = .root)
    (hproject : (projectOf env path options).outcome = .ok project) :
    (run env path options root).diagnostics = (reviewOutline env path options project (fetchOf env path options) root
      (Outline.ofNodes root.children)).diagnostics := by
  obtain ⟨directory, hdirectory⟩ := exists_projectDirectory hproject
  rw [run_eq hpath hroot hdirectory, Action.diagnostics_bind (projectOf_eq hdirectory ▸ hproject), diagnostics_findProject,
    List.nil_append, Action.diagnostics_bind (Action.outcome_log _ _ _), Action.diagnostics_log, List.nil_append,
    bind_pure_comp, Action.diagnostics_map]

theorem outcome_findProject_of_given {tags : List Text} {repository version url : Text} (directory : Path)
    (htags : options.tags = some tags) (hrepository : options.repository = some repository)
    (hversion : options.version = some version) (hne : repository ≠ []) (valid : Version.isValid version)
    (hurl : Hosting.url? repository = some url) :
    (findProject env options directory).outcome = .ok { tags, url, version } := by
  have hne' : version ≠ [] := by
    rintro rfl
    exact absurd valid (by decide)
  have said : said options.repository = some (.text repository) ∧ said options.version = some (.text version) := by
    simp [Review.said, hrepository, hversion, hne, hne']
  have declared : findDeclarations env options directory tags = pure (some (.text repository), some (.text version)) := by
    simp [findDeclarations, said]
  have found : findTags env options directory = pure tags := by simp only [findTags, htags]
  rw [findProject, found, pure_bind, declared, pure_bind, Action.outcome_ofExcept]
  simp [Project.ofDeclarations, valid, hurl]

theorem isValid_of_ofDeclarations {tags : List Text} {repository version : Option Data}
    (h : Project.ofDeclarations tags repository version = .ok project) : Version.isValid project.version := by
  unfold Project.ofDeclarations at h
  split at h
  · contradiction
  · contradiction
  next repository version =>
    split at h
    · contradiction
    next valid =>
      split at h
      · split at h
        · cases h
          simpa using valid
        · contradiction
      · contradiction
  · contradiction

theorem isValid_of_findProject {directory : Path} (h : (findProject env options directory).outcome = .ok project) :
    Version.isValid project.version := by
  obtain ⟨tags, -, h⟩ := Action.outcome_bind_eq_ok.mp h
  obtain ⟨⟨repository, version⟩, -, h⟩ := Action.outcome_bind_eq_ok.mp h
  exact isValid_of_ofDeclarations h

theorem isValid_of_projectOf (h : (projectOf env path options).outcome = .ok project) : Version.isValid project.version := by
  obtain ⟨directory, -, h⟩ := Action.outcome_bind_eq_ok.mp h
  exact isValid_of_findProject h

/-! ## Releases -/

/-- The remarks on a release and the groups in it. -/
def releaseRemarks (seen : List Text) (r : Release) : List Remark :=
  headingRemarks false seen r ++
    if isReadable r then
      (if r.isEmpty then [{ finding := .emptyRelease r.version, position := r.heading.position }] else []) ++
        r.groups.flatMap (groupRemarks r)
    else []

def remarksAfter (seen : List Text) : List Release → List Remark
  | [] => []
  | r :: rest => releaseRemarks seen r ++ remarksAfter (seenAfter seen r) rest

theorem backfill_lint : backfill false project fetch r =
    pure (r, if r.isEmpty then [.emptyRelease r.version] else []) := by
  unfold backfill fillable?
  cases r.isEmpty <;> rfl

theorem reviewRelease_lint :
    (reviewRelease path false project fetch seen r).outcome = .ok r ∧
      (reviewRelease path false project fetch seen r).diagnostics =
        (releaseRemarks seen r).map (Remark.diagnostic path) := by
  unfold reviewRelease releaseRemarks
  rw [Action.diagnostics_bind (outcome_remark _), Action.bind_outcome, outcome_remark, diagnostics_remark]
  cases hreadable : isReadable r with
  | false => simp [Except.bind]
  | true =>
      simp only [backfill_lint, pure_bind, Bool.not_true, Bool.false_eq_true, if_false, if_true, Except.bind,
        Action.bind_outcome, outcome_remark, Action.pure_outcome, true_and]
      rw [Action.diagnostics_bind (outcome_remark _), Action.diagnostics_bind (outcome_remark _)]
      cases r.isEmpty <;> simp

theorem unpaused_reviewRelease (h : fix = false ∨ r.isEmpty = false) :
    .paused ∉ (reviewRelease path fix project fetch seen r).events := by
  have remarks : ∀ remarks, .paused ∉ (remark path remarks).events := by simp [remark, Action.report]
  have alone : ∃ findings, backfill fix project fetch r = pure (r, findings) := by
    rcases h with rfl | filled
    · exact ⟨_, backfill_lint⟩
    · exact ⟨[], by simp [backfill, filled]⟩
  obtain ⟨findings, unfilled⟩ := alone
  unfold reviewRelease
  refine Action.not_mem_events_bind (remarks _) fun _ => ?_
  split
  · exact List.not_mem_nil
  · rw [unfilled, pure_bind]
    exact Action.not_mem_events_bind (remarks _) fun _ => Action.not_mem_events_bind (remarks _) fun _ => List.not_mem_nil

theorem diagnostics_reviewReleases_of_unpaused (h : fix = false ∨ ∀ r ∈ releases, r.isEmpty = false) :
    (reviewReleases schedule path fix project fetch releases).diagnostics =
      (reviews path fix project fetch [] releases).flatMap Action.diagnostics := by
  refine Action.diagnostics_gather_of_unpaused fun x hx => ?_
  obtain ⟨r, hr, seen, rfl⟩ := exists_of_mem_reviews hx
  exact unpaused_reviewRelease (h.imp_right fun filled => filled r hr)

theorem reviewReleases_lint :
    (reviewReleases schedule path false project fetch releases).outcome = .ok releases ∧
      (reviewReleases schedule path false project fetch releases).diagnostics =
        (remarksAfter [] releases).map (Remark.diagnostic path) := by
  have remarks (seen : List Text) : (reviews path false project fetch seen releases).flatMap Action.diagnostics =
      (remarksAfter seen releases).map (Remark.diagnostic path) := by
    induction releases generalizing seen with
    | nil => rfl
    | cons r rest ih => rw [reviews, List.flatMap_cons, reviewRelease_lint.2, ih, remarksAfter, List.map_append]
  refine ⟨?_, (diagnostics_reviewReleases_of_unpaused (.inl rfl)).trans (remarks [])⟩
  exact outcome_reviewReleases_eq_ok.mpr (List.forall₂_same.mpr fun _ _ => reviewRelease_lint.1)

/-- Fixing asks no more of a heading. -/
theorem releaseFindings_eq_nil_of_lint (h : releaseFindings false seen r = []) :
    releaseFindings fix seen r = [] := by
  cases fix with
  | false => exact h
  | true =>
      unfold releaseFindings headingFindings at h ⊢
      split at h
      · contradiction
      next depth =>
        split at h
        · contradiction
        next parseable =>
          obtain ⟨known, versions⟩ := List.append_eq_nil_iff.mp h
          rw [if_neg depth, if_neg parseable, versions, List.append_nil]
          cases hversion : r.version? with
          | none => rfl
          | some version =>
              rw [hversion] at known
              simp [(List.append_eq_nil_iff.mp known).1]

theorem diagnostics_reviewRelease_of_filled (filled : r.isEmpty = false) :
    (reviewRelease path fix project fetch seen r).diagnostics =
      (headingRemarks fix seen r ++ if isReadable r then r.groups.flatMap (groupRemarks r) else []).map
        (Remark.diagnostic path) := by
  have unfilled : backfill fix project fetch r = pure (r, []) := by simp [backfill, filled]
  rw [reviewRelease, Action.diagnostics_bind (outcome_remark _), diagnostics_remark, List.map_append]
  cases isReadable r with
  | false => rfl
  | true =>
      simp only [unfilled, pure_bind, Bool.not_true, Bool.false_eq_true, if_false, if_true]
      rw [Action.diagnostics_bind (outcome_remark _), Action.diagnostics_bind (outcome_remark _), diagnostics_remark,
        diagnostics_remark]
      simp

theorem releaseRemarks_of_filled (filled : r.isEmpty = false) : releaseRemarks seen r =
    headingRemarks false seen r ++ if isReadable r then r.groups.flatMap (groupRemarks r) else [] := by
  simp [releaseRemarks, filled]

theorem diagnostics_reviewReleases_of_filled (filled : ∀ r ∈ releases, r.isEmpty = false)
    (quiet : remarksAfter [] releases = []) : (reviewReleases schedule path fix project fetch releases).diagnostics = [] := by
  rw [diagnostics_reviewReleases_of_unpaused (.inr filled)]
  generalize ([] : List Text) = seen at quiet ⊢
  induction releases generalizing seen with
  | nil => rfl
  | cons r rest ih =>
      obtain ⟨hfilled, hrest⟩ := List.forall_mem_cons.mp filled
      obtain ⟨first, others⟩ := List.append_eq_nil_iff.mp quiet
      rw [releaseRemarks_of_filled hfilled] at first
      obtain ⟨heading, groups⟩ := List.append_eq_nil_iff.mp first
      have findings : headingRemarks fix seen r = [] :=
        List.map_eq_nil_iff.mpr (releaseFindings_eq_nil_of_lint (List.map_eq_nil_iff.mp heading))
      rw [reviews, List.flatMap_cons, ih hrest _ others, diagnostics_reviewRelease_of_filled hfilled, findings, groups]
      rfl

/-! ## The outline -/

def titleRemarks (root : Node) (o : Outline) : List Remark :=
  if o.hasTitle then [] else [{ finding := .noTitle, position := (o.heading.getD root).position }]

def releaseOrderRemarks (root : Node) (isSorted : Bool) : List Remark :=
  if isSorted then [] else [{ finding := .releasesUnsorted, position := root.position }]

def orderRemarks (root : Node) (isSorted : Bool) : List Remark :=
  if isSorted then [] else [{ finding := .definitionsUnsorted, position := root.position }]

/-- What a review that fixes nothing finds out about the order of an outline, and the releases as it goes through
    them. -/
structure IsInspected (sorting : Sorting) (o : Outline) (isOrdered isDefined : Bool) (releases : List Release) : Prop where
  ordered : Release.isSorted o.releases = .ok isOrdered
  reviewed : sorting.sort o.releases = .ok releases
  defined : o.definitions.isSorted = .ok isDefined

def outlineRemarks (project : Project) (root : Node) (o : Outline) (isOrdered isDefined : Bool) (releases : List Release) :
    List Remark :=
  titleRemarks root o ++ releaseOrderRemarks root isOrdered ++ remarksAfter [] (Release.relate releases) ++
    linkRemarks project o.definitions (Release.relate releases) ++ orderRemarks root isDefined

theorem remark_nil : remark path [] = pure () := rfl

/-- The releases are sorted in any case: those that are in order are left as they are. -/
theorem inspectOrder_eq : inspectOrder sorting path root o = (do
    remark path (titleRemarks root o)
    let isOrdered ← Action.ofExcept (Release.isSorted o.releases)
    remark path (releaseOrderRemarks root isOrdered)
    let releases ← Action.ofExcept (sorting.sort o.releases)
    return { o with releases }) := by
  have sorted : (do
      if ← Action.ofExcept (Release.isSorted o.releases) then return o
      else
        remark path [{ finding := .releasesUnsorted, position := root.position }]
        return { o with releases := ← Action.ofExcept (sorting.sort o.releases) } : Action Outline) = (do
      let isOrdered ← Action.ofExcept (Release.isSorted o.releases)
      remark path (releaseOrderRemarks root isOrdered)
      let releases ← Action.ofExcept (sorting.sort o.releases)
      return { o with releases }) := by
    cases hsorted : Release.isSorted o.releases with
    | error fault => rfl
    | ok isOrdered =>
        cases isOrdered with
        | true =>
            rw [sorting.keeps hsorted]
            rfl
        | false => rfl
  unfold inspectOrder
  simp only [sorted]
  cases titled : o.hasTitle <;> simp [titleRemarks, titled, remark_nil]

theorem inspectLinks_eq : inspectLinks path project root o = (do
    remark path (linkRemarks project o.definitions o.releases)
    let isDefined ← Action.ofExcept o.definitions.isSorted
    remark path (orderRemarks root isDefined)) := by
  unfold inspectLinks
  congr 1
  funext _
  congr 1
  funext isDefined
  cases isDefined <;> rfl

section

variable {isOrdered isDefined : Bool}

namespace IsInspected

theorem inspectOrder (h : IsInspected sorting o isOrdered isDefined releases) :
    (inspectOrder sorting path root o).outcome = .ok { o with releases } ∧
      (Review.inspectOrder sorting path root o).diagnostics =
        (titleRemarks root o ++ releaseOrderRemarks root isOrdered).map (Remark.diagnostic path) := by
  have ordered : (Action.ofExcept (Release.isSorted o.releases)).outcome = .ok isOrdered := h.ordered
  have reviewed : (Action.ofExcept (sorting.sort o.releases)).outcome = .ok releases := h.reviewed
  rw [inspectOrder_eq]
  refine ⟨?_, ?_⟩
  · rw [Action.outcome_bind (outcome_remark _), Action.outcome_bind ordered, Action.outcome_bind (outcome_remark _),
      Action.outcome_bind reviewed]
    rfl
  · rw [Action.diagnostics_bind (outcome_remark _), Action.diagnostics_bind ordered, Action.diagnostics_bind (outcome_remark _),
      Action.diagnostics_bind reviewed]
    simp

theorem inspectLinks (h : IsInspected sorting o isOrdered isDefined releases) (reviewed : List Release) (path : Option Path)
    (root : Node) (project : Project) :
    (inspectLinks path project root { o with releases := reviewed }).outcome = .ok () ∧
      (Review.inspectLinks path project root { o with releases := reviewed }).diagnostics =
        (linkRemarks project o.definitions reviewed ++ orderRemarks root isDefined).map (Remark.diagnostic path) := by
  have defined : (Action.ofExcept o.definitions.isSorted).outcome = .ok isDefined := h.defined
  rw [inspectLinks_eq]
  refine ⟨?_, ?_⟩
  · rw [Action.outcome_bind (outcome_remark _), Action.outcome_bind defined, outcome_remark]
  · rw [Action.diagnostics_bind (outcome_remark _), Action.diagnostics_bind defined]
    simp

theorem reviewOutline (h : IsInspected env.sorting o isOrdered isDefined releases) (lint : options.fix = false) :
    (reviewOutline env path options project fetch root o).outcome = .ok { o with releases := Release.relate releases } ∧
      (Review.reviewOutline env path options project fetch root o).diagnostics =
        (outlineRemarks project root o isOrdered isDefined releases).map (Remark.diagnostic path) := by
  have links := h.inspectLinks (Release.relate releases)
  unfold Review.reviewOutline
  simp only [lint, Bool.false_eq_true, if_false]
  refine ⟨?_, ?_⟩
  · rw [Action.outcome_bind h.inspectOrder.1, Action.outcome_bind reviewReleases_lint.1,
      Action.outcome_bind (links path root project).1]
    rfl
  · rw [Action.diagnostics_bind h.inspectOrder.1, Action.diagnostics_bind reviewReleases_lint.1,
      Action.diagnostics_bind (links path root project).1, h.inspectOrder.2, reviewReleases_lint.2, (links path root project).2]
    simp [outlineRemarks]

end IsInspected

/-- A review that fixes nothing comes to an end only if the order of the outline is found out. -/
theorem exists_isInspected (lint : options.fix = false) {reviewed : Outline}
    (h : (reviewOutline env path options project fetch root o).outcome = .ok reviewed) :
    ∃ isOrdered isDefined releases, IsInspected env.sorting o isOrdered isDefined releases := by
  unfold reviewOutline at h
  simp only [lint, Bool.false_eq_true, if_false] at h
  rw [inspectOrder_eq] at h
  obtain ⟨inspected, horder, h⟩ := Action.outcome_bind_eq_ok.mp h
  obtain ⟨_, _, horder⟩ := Action.outcome_bind_eq_ok.mp horder
  obtain ⟨isOrdered, ordered, horder⟩ := Action.outcome_bind_eq_ok.mp horder
  obtain ⟨_, _, horder⟩ := Action.outcome_bind_eq_ok.mp horder
  obtain ⟨releases, reviewed, horder⟩ := Action.outcome_bind_eq_ok.mp horder
  cases horder
  obtain ⟨_, _, h⟩ := Action.outcome_bind_eq_ok.mp h
  rw [inspectLinks_eq] at h
  obtain ⟨_, hlinks, _⟩ := Action.outcome_bind_eq_ok.mp h
  obtain ⟨_, _, hlinks⟩ := Action.outcome_bind_eq_ok.mp hlinks
  obtain ⟨isDefined, defined, _⟩ := Action.outcome_bind_eq_ok.mp hlinks
  exact ⟨isOrdered, isDefined, releases, ordered, reviewed, defined⟩

end

theorem reviewOutline_lint {isSorted : Bool} (lint : options.fix = false) (titled : o.hasTitle)
    (sorted : Release.isSorted o.releases = .ok true) (comparable : o.definitions.isSorted = .ok isSorted) :
    (reviewOutline env path options project fetch root o).outcome = .ok { o with releases := Release.relate o.releases } ∧
      (reviewOutline env path options project fetch root o).diagnostics =
        (remarksAfter [] (Release.relate o.releases) ++ linkRemarks project o.definitions (Release.relate o.releases) ++
          orderRemarks root isSorted).map (Remark.diagnostic path) := by
  have inspected : IsInspected env.sorting o true isSorted o.releases := ⟨sorted, env.sorting.keeps sorted, comparable⟩
  have inOrder : titleRemarks root o ++ releaseOrderRemarks root true = [] := by
    simp [titleRemarks, releaseOrderRemarks, titled]
  refine ⟨(inspected.reviewOutline lint).1, (inspected.reviewOutline lint).2.trans ?_⟩
  rw [outlineRemarks, inOrder, List.nil_append]

end Review

end Changelog
