import Changelog.Proofs.History.Merge
import Changelog.Proofs.Review.Asked
import Changelog.Proofs.Review.Rules

/-! # Empty releases are filled one by one

A review that fixes a document decides for each empty release alone whether it is filled: the commits of one range are
asked for, and if one of them is no merge they become the single group of the release. Otherwise the release stays
empty and is remarked on once. No other release is touched, and apart from what is to be known about the project git is
asked for nothing else. In which order this goes on for different releases is left to the schedule.
-/

namespace Changelog

namespace Review

variable {env : Environment} {path : Option Path} {options : Options} {root : Node} {project : Project} {fetch : Fetch}
  {schedule : List Nat} {o : Outline} {r r' : Release} {releases reviewed : List Release} {seen : List Text}
  {version previous : Text} {commits : List Commit} {groups : List Section} {group : Section} {blocks : List Node}

/-! ## What is asked for -/

/-- An empty release with a version, and with a version of the next older release, whose heading is that of a release. -/
structure IsFillable (r : Release) (version previous : Text) : Prop where
  depth : r.heading.depth = some 2
  parseable : r.isParseable
  content : r.body.content = []
  groups : r.groups = []
  version : r.version = some version ∧ version ≠ []
  previous : r.previous = some previous ∧ previous ≠ []

theorem isFillable_iff : IsFillable r version previous ↔
    isReadable r ∧ fillable? true r = some (version, previous) := by
  rw [fillable?_eq_some_iff, isReadable, Release.isEmpty, Section.isEmpty]
  simp only [Bool.and_eq_true, decide_eq_true_eq, List.isEmpty_iff, true_and]
  constructor
  · intro h
    exact ⟨⟨h.depth, h.parseable⟩, ⟨h.content, h.groups⟩, h.version, h.previous⟩
  · rintro ⟨⟨depth, parseable⟩, ⟨content, groups⟩, hversion, hprevious⟩
    exact ⟨depth, parseable, content, groups, hversion, hprevious⟩

/-- Is a version not released yet, or newer than the current one? -/
def IsAhead (project : Project) (version : Text) : Prop :=
  version = unreleased ∨ Version.isNewer version project.version = .ok true

instance (project : Project) (version : Text) : Decidable (IsAhead project version) :=
  inferInstanceAs (Decidable (_ ∨ _))

/-- The range of commits that a version is filled from: behind the tag of the next older version, up to the head if the
    version is ahead of the current one, and otherwise in front of its own tag. -/
def rangeOf (project : Project) (version previous : Text) : Range :=
  if IsAhead project version then
    Range.ofRefs (some (Version.tag previous project.tags)) none none (some (Text.ofString "HEAD"))
  else
    Range.ofRefs (some (Version.tag previous project.tags)) none (some (Version.tag version project.tags)) none

theorem eq_of_gapOf {gap : Gap} (h : gapOf project version previous = .ok gap) :
    gap = ⟨Version.tag previous project.tags,
      if IsAhead project version then none else some (Version.tag version project.tags)⟩ := by
  unfold gapOf at h
  by_cases hversion : version = unreleased
  · rw [if_pos hversion] at h
    cases h
    rw [if_pos (show IsAhead project version from .inl hversion)]
    rfl
  · rw [if_neg hversion] at h
    have ahead : IsAhead project version ↔ Version.isNewer version project.version = .ok true := or_iff_right hversion
    simp only [ahead]
    cases hnewer : Version.isNewer version project.version with
    | error fault => simp [hnewer, bind, Except.bind] at h
    | ok newer =>
        rw [hnewer] at h
        cases h
        simp only [Except.ok.injEq]

theorem range_of_gapOf {gap : Gap} (h : gapOf project version previous = .ok gap) :
    gap.range = rangeOf project version previous := by
  rw [eq_of_gapOf h, rangeOf]
  by_cases ahead : IsAhead project version
  · rw [if_pos ahead, if_pos ahead]
    rfl
  · rw [if_neg ahead, if_neg ahead]
    rfl

/-! ## What becomes of a release -/

/-- A group of entries that nobody sorted yet, with one list. It has an item for every commit that is no merge, in
    their order. -/
structure IsListOf (commits : List Commit) (group : Section) : Prop where
  heading : group.heading = Node.heading 3 [Node.ofText uncategorized]
  content : ∃ list, group.content = [list] ∧ list.kind = .list ∧
    list.children = (commits.filter (!·.isMerge)).map fun commit => commit.entry.node
  children : group.children = []

/-- A release that another one became: groups were put under it, and its heading may be written in another way. -/
structure IsExtended (groups : List Section) (r r' : Release) : Prop where
  said : r'.toReleaseHeading = r.toReleaseHeading
  place : r'.heading.position = r.heading.position
  content : r'.body.content = r.body.content
  groups : r'.groups = r.groups ++ groups

theorem isExtended_withGroups (groups : List Section) (r : Release) : IsExtended groups r (withGroups groups r) :=
  ⟨rfl, rfl, rfl, rfl⟩

theorem isExtended_self (r : Release) : IsExtended [] r r := ⟨rfl, rfl, rfl, (List.append_nil _).symm⟩

theorem IsExtended.relinked (h : IsExtended groups r r') : IsExtended groups r (relinked r') :=
  ⟨h.said, h.place, h.content, h.groups⟩

/-- What a review did to a release: the release after it, the ranges of commits that were asked for, and what there is to
    remark on for want of entries. -/
structure Filling where
  release : Release
  fetched : List Range := []
  remarks : List Finding := []

namespace Filling

def diagnostics (path : Option Path) (filling : Filling) : List Diagnostic :=
  filling.remarks.map fun finding => Remark.diagnostic path { finding, position := filling.release.heading.position }

def calls (fetch : Fetch) (filling : Filling) : List GitCall := filling.fetched.flatMap fun range => (fetch range).calls

def relinked (filling : Filling) : Filling := { filling with release := Review.relinked filling.release }

end Filling

/-- All or nothing: the commits of a release that can be filled are asked for once. Those that are no merges become its
    only group. If there are none, or git fails, the release stays as it was and is remarked on. So does any other
    release, but it is remarked on only if it is empty and its heading is looked into. -/
inductive IsFilling (project : Project) (fetch : Fetch) (r : Release) : Filling → Prop where
  | filled {version previous : Text} {commits : List Commit} {group : Section} {r' : Release} :
    IsFillable r version previous →
    (fetch (rangeOf project version previous)).outcome = .ok commits →
    (∃ commit ∈ commits, commit.isMerge = false) →
    IsListOf commits group →
    IsExtended [group] r r' →
    IsFilling project fetch r { release := r', fetched := [rangeOf project version previous] }
  | unfilled {version previous : Text} {commits : List Commit} {r' : Release} :
    IsFillable r version previous →
    (fetch (rangeOf project version previous)).outcome = .ok commits →
    (∀ commit ∈ commits, commit.isMerge) →
    IsExtended [] r r' →
    IsFilling project fetch r
      { release := r', fetched := [rangeOf project version previous], remarks := [.emptyRelease (some version)] }
  | failed {version previous : Text} {cause : GitFault} {r' : Release} :
    IsFillable r version previous →
    (fetch (rangeOf project version previous)).outcome = .error (.git cause) →
    IsExtended [] r r' →
    IsFilling project fetch r
      { release := r', fetched := [rangeOf project version previous], remarks := [.noCommits version cause] }
  | left {r' : Release} :
    (∀ version previous, ¬IsFillable r version previous) →
    IsExtended [] r r' →
    IsFilling project fetch r
      { release := r', remarks := if isReadable r && r.isEmpty then [.emptyRelease r.version] else [] }

theorem IsFilling.relinked {filling : Filling} (h : IsFilling project fetch r filling) :
    IsFilling project fetch r filling.relinked := by
  cases h with
  | filled fillable fetched some list extended => exact .filled fillable fetched some list extended.relinked
  | unfilled fillable fetched merges extended => exact .unfilled fillable fetched merges extended.relinked
  | failed fillable fetched extended => exact .failed fillable fetched extended.relinked
  | left unfillable extended => exact .left unfillable extended.relinked

theorem groupsOf_cases (commits : List Commit) :
    (∀ commit ∈ commits, commit.isMerge) ∧ groupsOf commits = [] ∨
      (∃ commit ∈ commits, commit.isMerge = false) ∧ ∃ group, IsListOf commits group ∧ groupsOf commits = [group] := by
  rw [groupsOf_eq]
  by_cases merges : ∀ commit ∈ commits, commit.isMerge
  · have nothing : commits.filter (!·.isMerge) = [] :=
      List.filter_eq_nil_iff.mpr fun commit hcommit => by simp [merges commit hcommit]
    exact .inl ⟨merges, by simp [nothing]⟩
  · obtain ⟨commit, hcommit, isMerge⟩ : ∃ commit ∈ commits, commit.isMerge = false := by simpa using merges
    have filled : ((commits.filter (!·.isMerge)).map Commit.entry).isEmpty = false := by
      simpa using ⟨commit, hcommit, isMerge⟩
    refine .inr ⟨⟨commit, hcommit, isMerge⟩,
      (Section.group 3 uncategorized).addEntries ((commits.filter (!·.isMerge)).map Commit.entry), ?_, by simp [filled]⟩
    exact ⟨rfl, ⟨_, rfl, rfl, List.map_map⟩, rfl⟩

theorem isFilling_fill (fillable : IsFillable r version previous)
    (fetched : (fetch (rangeOf project version previous)).outcome = .ok commits) :
    IsFilling project fetch r ⟨(fill r version commits).1, [rangeOf project version previous], (fill r version commits).2⟩ := by
  rcases groupsOf_cases commits with ⟨merges, none⟩ | ⟨some, group, list, single⟩
  · have hfill : fill r version commits = (r, [.emptyRelease (Option.some version)]) := by simp [fill, none]
    rw [hfill]
    exact .unfilled fillable fetched merges (isExtended_self r)
  · have hfill : fill r version commits = (withGroups [group] r, []) := by simp [fill, single, withGroups]
    rw [hfill]
    exact .filled fillable fetched some list (isExtended_withGroups [group] r)

/-! ## What is done on the way -/

/-- Does a diagnostic say that a release has no entries? -/
def isOnEmptyRelease (diagnostic : Diagnostic) : Bool := diagnostic.rule = Rule.noEmptyRelease.name

/-- An operation does what some fillings say: it calls git for their commits, for each of them in order, and of all its
    diagnostics those on releases without entries are theirs. -/
structure Does {α : Type} (path : Option Path) (fetch : Fetch) (x : Action α) (fillings : List Filling) : Prop where
  calls : x.calls.Perm (fillings.flatMap (Filling.calls fetch))
  asked : ∀ filling ∈ fillings, (filling.calls fetch).Sublist x.calls
  remarks : (x.diagnostics.filter isOnEmptyRelease).Perm (fillings.flatMap (Filling.diagnostics path))

namespace Does

variable {α β : Type} {x : Action α} {f : α → Action β} {fillings others : List Filling}

theorem of_silent (calls : x.calls = []) (diagnostics : x.diagnostics = []) : Does path fetch x [] :=
  ⟨by simp [calls], nofun, by simp [diagnostics]⟩

theorem pure (a : α) : Does path fetch (Pure.pure a : Action α) [] := of_silent rfl rfl

theorem bind {a : α} (outcome : x.outcome = .ok a) (hx : Does path fetch x fillings) (hf : Does path fetch (f a) others) :
    Does path fetch (x >>= f) (fillings ++ others) where
  calls := by
    rw [Action.calls_bind outcome, List.flatMap_append]
    exact hx.calls.append hf.calls
  asked := by
    rw [Action.calls_bind outcome]
    refine List.forall_mem_append.mpr ⟨fun filling h => ?_, fun filling h => ?_⟩
    · exact (hx.asked filling h).trans (List.sublist_append_left _ _)
    · exact (hf.asked filling h).trans (List.sublist_append_right _ _)
  remarks := by
    rw [Action.diagnostics_bind outcome, List.filter_append, List.flatMap_append]
    exact hx.remarks.append hf.remarks

theorem bind_nil (hx : Does path fetch x fillings) (hf : ∀ a, Does path fetch (f a) []) :
    Does path fetch (x >>= f) fillings := by
  cases h : x.outcome with
  | ok a =>
      have done := bind h hx (hf a)
      rwa [List.append_nil] at done
  | error fault =>
      have calls : (x >>= f).calls = x.calls := Action.calls_bind_of_error h
      exact ⟨calls ▸ hx.calls, calls ▸ hx.asked, (Action.diagnostics_bind_of_error h).symm ▸ hx.remarks⟩

/-- Operations side by side do what each of them does. -/
theorem gather {xs : List (Action α)} (schedule : List Nat)
    (h : List.Forall₂ (fun x filling => Does path fetch x [filling]) xs fillings) :
    Does path fetch (Action.gather schedule xs) fillings where
  calls := by
    refine (Action.perm_calls_gather schedule xs).trans ?_
    induction h with
    | nil => exact .refl _
    | cons first _ ih =>
        rw [List.flatMap_cons, List.flatMap_cons]
        exact (List.flatMap_singleton _ _ ▸ first.calls).append ih
  asked filling hfilling := by
    obtain ⟨x, hx, done⟩ := exists_left_of_forall₂ h hfilling
    exact (done.asked filling (List.mem_singleton_self filling)).trans (Action.sublist_calls_gather hx)
  remarks := by
    refine ((Action.perm_diagnostics_gather schedule xs).filter _).trans ?_
    rw [List.filter_flatMap]
    induction h with
    | nil => exact .refl _
    | cons first _ ih =>
        rw [List.flatMap_cons, List.flatMap_cons]
        exact (List.flatMap_singleton _ _ ▸ first.remarks).append ih

theorem remark {remarks : List Remark} (h : ∀ remark ∈ remarks, remark.finding.rule ≠ .noEmptyRelease) :
    Does path fetch (Review.remark path remarks) [] where
  calls := by rw [Review.remark, Action.calls_report, List.flatMap_nil]
  asked := nofun
  remarks := by
    have others : (remarks.map (Remark.diagnostic path)).filter isOnEmptyRelease = [] := by
      refine List.filter_eq_nil_iff.mpr fun diagnostic hdiagnostic same => ?_
      obtain ⟨remark, hremark, rfl⟩ := List.mem_map.mp hdiagnostic
      exact h remark hremark (Rule.name_injective (of_decide_eq_true same))
    rw [diagnostics_remark, others, List.flatMap_nil]

theorem remark_filling {release : Release} {findings : List Finding}
    (h : ∀ finding ∈ findings, finding.rule = .noEmptyRelease) :
    Does path fetch
      (Review.remark path (findings.map fun finding => { finding, position := release.heading.position }))
      [{ release, remarks := findings }] where
  calls := by
    rw [Review.remark, Action.calls_report]
    exact .refl _
  asked filling hfilling := by
    rw [List.mem_singleton.mp hfilling]
    exact List.nil_sublist _
  remarks := by
    refine .of_eq ?_
    rw [diagnostics_remark, List.flatMap_singleton, List.map_map]
    refine List.filter_eq_self.mpr fun diagnostic hdiagnostic => ?_
    obtain ⟨finding, hfinding, rfl⟩ := List.mem_map.mp hdiagnostic
    exact decide_eq_true (congrArg Rule.name (h finding hfinding))

theorem join {a : α} {release : Release} {fetched : List Range} {remarks : List Finding} (outcome : x.outcome = .ok a)
    (hx : Does path fetch x [{ release, fetched }]) (hf : Does path fetch (f a) [{ release, remarks }]) :
    Does path fetch (x >>= f) [{ release, fetched, remarks }] where
  calls := by simpa [Filling.calls] using (bind outcome hx hf).calls
  asked filling hfilling := by
    rw [List.mem_singleton.mp hfilling, Action.calls_bind outcome]
    exact (hx.asked _ (List.mem_singleton_self _)).trans (List.sublist_append_left _ _)
  remarks := by simpa [Filling.diagnostics] using (bind outcome hx hf).remarks

theorem relinked (h : Does path fetch x fillings) : Does path fetch x (fillings.map Filling.relinked) where
  calls := by
    rw [List.flatMap_map]
    exact h.calls
  asked := List.forall_mem_map.mpr h.asked
  remarks := by
    rw [List.flatMap_map]
    exact h.remarks

end Does

/-! ## Releases -/

theorem calls_fillFrom {gap : Gap} (h : gapOf project version previous = .ok gap) :
    (fillFrom project fetch r version previous).calls = (fetch gap.range).calls := by
  have found : (Action.ofExcept (gapOf project version previous)).outcome = .ok gap := h
  unfold fillFrom
  rw [Action.calls_bind found, Action.calls_bind (Action.outcome_log _ _ _), Action.calls_ofExcept, Action.calls_log,
    List.nil_append, List.nil_append]
  refine (Action.calls_bind_of_nil fun answer => ?_).trans (Action.calls_attemptGit _)
  cases answer with
  | error cause => exact Action.calls_bind_of_nil fun _ => rfl
  | ok commits =>
      dsimp only
      split
      · exact Action.calls_bind_of_nil fun _ => rfl
      · rfl

theorem isFilling_of_fillFrom {findings : List Finding} (fillable : IsFillable r version previous)
    (h : (fillFrom project fetch r version previous).outcome = .ok (r', findings)) :
    IsFilling project fetch r ⟨r', [rangeOf project version previous], findings⟩ ∧
      (fillFrom project fetch r version previous).calls = (fetch (rangeOf project version previous)).calls := by
  obtain ⟨gap, hgap, ⟨commits, hfetch, hfill⟩ | ⟨cause, hfetch, rfl, rfl⟩⟩ := of_fillFrom h
  all_goals
    rw [range_of_gapOf hgap] at hfetch
    rw [calls_fillFrom hgap, range_of_gapOf hgap]
    refine ⟨?_, rfl⟩
  · have filled := isFilling_fill fillable hfetch
    rwa [hfill] at filled
  · exact .failed fillable hfetch (isExtended_self _)

theorem isFilling_of_unfillable (h : isReadable r → fillable? true r = none) : IsFilling project fetch r
    { release := r, remarks := if isReadable r && r.isEmpty then [.emptyRelease r.version] else [] } := by
  refine .left (fun version previous fillable => ?_) (isExtended_self r)
  obtain ⟨readable, hfillable⟩ := isFillable_iff.mp fillable
  rw [h readable] at hfillable
  contradiction

theorem exists_filling_of_backfill {findings : List Finding} (readable : isReadable r)
    (h : (backfill true project fetch r).outcome = .ok (r', findings)) :
    ∃ fetched, IsFilling project fetch r ⟨r', fetched, findings⟩ ∧
      (backfill true project fetch r).calls = fetched.flatMap fun range => (fetch range).calls := by
  rcases backfill_cases true project fetch r with ⟨filled, heq⟩ | ⟨⟨empty, unfillable⟩, heq⟩ | ⟨version, previous, fillable, heq⟩
  · rw [heq] at h ⊢
    cases h
    have unfillable : fillable? true r = none := by simp [fillable?, filled]
    exact ⟨[], by simpa [filled] using @isFilling_of_unfillable project fetch r fun _ => unfillable, rfl⟩
  · rw [heq] at h ⊢
    cases h
    exact ⟨[], by simpa [empty, readable] using @isFilling_of_unfillable project fetch r fun _ => unfillable, rfl⟩
  · rw [heq] at h ⊢
    obtain ⟨filling, calls⟩ := isFilling_of_fillFrom (isFillable_iff.mpr ⟨readable, fillable⟩) h
    exact ⟨_, filling, by rw [calls, List.flatMap_singleton]⟩

/-- What a review that fixes does to one release. -/
theorem exists_filling_of_reviewRelease (silent : ∀ range, (fetch range).diagnostics = [])
    (h : (reviewRelease path true project fetch seen r).outcome = .ok r') : ∃ filling, filling.release = r' ∧
      IsFilling project fetch r filling ∧ Does path fetch (reviewRelease path true project fetch seen r) [filling] := by
  have heading : ∀ remark ∈ headingRemarks true seen r, remark.finding.rule ≠ .noEmptyRelease := by
    intro remark hremark same
    obtain ⟨finding, hfinding, rfl⟩ := List.mem_map.mp hremark
    exact absurd (same ▸ rule_of_mem_releaseFindings hfinding) (by decide)
  have groups : ∀ remark ∈ r'.groups.flatMap (groupRemarks r'), remark.finding.rule ≠ .noEmptyRelease := by
    intro remark hremark same
    obtain ⟨group, -, hgroup⟩ := List.mem_flatMap.mp hremark
    obtain ⟨finding, hfinding, rfl⟩ := List.mem_map.mp hgroup
    exact absurd (same ▸ rule_of_mem_groupFindings hfinding) (by decide)
  rw [outcome_reviewRelease] at h
  unfold reviewRelease
  cases readable : isReadable r with
  | false =>
      simp only [readable, Bool.false_eq_true, if_false] at h
      cases h
      have left := @isFilling_of_unfillable project fetch r (by simp [readable])
      refine ⟨{ release := r }, rfl, by simpa [readable] using left, ?_⟩
      refine Does.bind (outcome_remark _) (Does.remark heading) ⟨.refl _, fun filling hfilling => ?_, .refl _⟩
      rw [List.mem_singleton.mp hfilling]
      exact List.nil_sublist _
  | true =>
      simp only [readable, if_true] at h
      cases hfill : (backfill true project fetch r).outcome with
      | error fault => simp [hfill, Except.map] at h
      | ok result =>
          obtain ⟨filled, findings⟩ := result
          obtain rfl : filled = r' := by simpa [hfill, Except.map] using h
          obtain ⟨fetched, filling, calls⟩ := exists_filling_of_backfill readable hfill
          refine ⟨_, rfl, filling, Does.bind (outcome_remark _) (Does.remark heading) ?_⟩
          -- first the commits are asked for, and then it is known what to remark on
          refine Does.join hfill ⟨?_, fun filling hfilling => ?_, ?_⟩ ?_
          · rw [calls, List.flatMap_singleton]
            exact .refl _
          · rw [List.mem_singleton.mp hfilling, calls]
            exact .refl _
          · rw [diagnostics_backfill silent]
            exact .refl _
          · refine Does.bind_nil (Does.remark_filling (rule_of_backfill hfill)) fun _ => ?_
            exact Does.bind_nil (Does.remark groups) fun _ => Does.pure _

/-- What a review that fixes does to releases side by side. -/
theorem exists_fillings_of_reviewReleases (silent : ∀ range, (fetch range).diagnostics = [])
    (h : (reviewReleases schedule path true project fetch releases).outcome = .ok reviewed) : ∃ fillings,
      fillings.map Filling.release = reviewed ∧ List.Forall₂ (IsFilling project fetch) releases fillings ∧
        Does path fetch (reviewReleases schedule path true project fetch releases) fillings := by
  have each (seen : List Text) : ∃ fillings, fillings.map Filling.release = reviewed ∧
      List.Forall₂ (IsFilling project fetch) releases fillings ∧
      List.Forall₂ (fun x filling => Does path fetch x [filling]) (reviews path true project fetch seen releases) fillings := by
    have reviewed := outcome_reviewReleases_eq_ok.mp h
    clear h
    induction reviewed generalizing seen with
    | nil => exact ⟨[], rfl, .nil, .nil⟩
    | cons first _ ih =>
        rw [outcome_reviewRelease, ← outcome_reviewRelease seen] at first
        obtain ⟨filling, rfl, isFilling, done⟩ := exists_filling_of_reviewRelease silent first
        obtain ⟨fillings, rfl, areFillings, doneAfter⟩ := ih _
        exact ⟨filling :: fillings, rfl, .cons isFilling areFillings, .cons done doneAfter⟩
  obtain ⟨fillings, released, areFillings, done⟩ := each []
  exact ⟨fillings, released, areFillings, Does.gather schedule done⟩

/-! ## Documents -/

theorem does_addRequested (request : Option Text) (o : Outline) :
    Does path fetch (addRequested env path project request root o) [] := by
  unfold addRequested
  cases request.filter (!·.isEmpty) with
  | none => exact Does.pure o
  | some request =>
      refine Does.bind_nil (Does.of_silent rfl rfl) fun version => ?_
      unfold addVersion
      split
      · exact Does.bind_nil (Does.of_silent rfl rfl) fun _ => Does.pure _
      next finding refused =>
        have rule : finding.rule = .addNewRelease := by
          split at refused
          · cases refused
            rfl
          · split at refused
            · cases refused
              rfl
            · contradiction
        refine Does.bind_nil (Does.remark fun remark hremark => ?_) fun _ => Does.pure _
        rw [List.mem_singleton.mp hremark, rule]
        decide

theorem does_arrange (o : Outline) : Does path fetch (arrange env path options project root o) [] :=
  Does.bind_nil (does_addRequested options.add o.setTitle) fun _ =>
    Does.bind_nil (Does.of_silent rfl rfl) fun _ => Does.pure _

theorem does_link (o : Outline) : Does path fetch (link project o) [] :=
  Does.bind_nil (Does.of_silent rfl rfl) fun _ => Does.pure _

theorem exists_fillings_of_reviewOutline (fix : options.fix) (silent : ∀ range, (fetch range).diagnostics = [])
    {fixed : Outline} (h : (reviewOutline env path options project fetch root o).outcome = .ok fixed) :
    ∃ arranged fillings definitions, (arrange env path options project root o).outcome = .ok arranged ∧
      List.Forall₂ (IsFilling project fetch) (Release.relate arranged.releases) fillings ∧
      fixed = { arranged with releases := fillings.map Filling.release, definitions } ∧
      Does path fetch (reviewOutline env path options project fetch root o) fillings := by
  obtain ⟨arranged, reviewed, definitions, harranged, hreviewed, -, rfl⟩ := (outcome_reviewOutline_eq_ok fix).mp h
  obtain ⟨fillings, rfl, areFillings, done⟩ := exists_fillings_of_reviewReleases silent hreviewed
  refine ⟨arranged, fillings.map Filling.relinked, definitions, harranged, ?_, ?_, ?_⟩
  · exact List.forall₂_map_right_iff.mpr (areFillings.imp fun _ _ filling => filling.relinked)
  · rw [List.map_map, List.map_map]
    rfl
  · refine Does.relinked ?_
    unfold reviewOutline
    simp only [fix, if_true]
    exact Does.bind harranged (does_arrange o) (Does.bind_nil done fun _ => does_link _)

theorem calls_run (hpath : isReviewed path) (hroot : root.kind = .root)
    (hproject : (projectOf env path options).outcome = .ok project) :
    (run env path options root).calls = (projectOf env path options).calls ++
      (reviewOutline env path options project (fetchOf env path options) root (Outline.ofNodes root.children)).calls := by
  obtain ⟨directory, hdirectory⟩ := exists_projectDirectory hproject
  rw [run_eq hpath hroot hdirectory, projectOf_eq hdirectory, Action.calls_bind (projectOf_eq hdirectory ▸ hproject),
    Action.calls_bind (Action.outcome_log _ _ _), Action.calls_log, List.nil_append, bind_pure_comp, Action.calls_map]

theorem perm_releases_of_arrange {arranged : Outline} (h : (arrange env path options project root o).outcome = .ok arranged) :
    arranged.releases.Perm o.releases ∨
      ∃ version, arranged.releases.Perm (o.addRelease (datedHeading version env.today)).releases := by
  obtain ⟨added, sorted, hadded, hsorted, rfl⟩ := outcome_arrange_eq_ok.mp h
  have perm : sorted.Perm added.releases := env.sorting.perm hsorted
  rcases of_addRequested hadded with rfl | ⟨_, version, -, -, -, -, rfl⟩
  · rw [releases_setTitle] at perm
    exact .inl perm
  · rw [Outline.addRelease, releases_setTitle] at perm
    exact .inr ⟨version, perm⟩

/-- A review that fixes a document deals with each of its releases alone. Those of the document, and one that is added, are
    put in order. After that each is filled or left, all that git is asked for besides the project are the commits of the
    releases that can be filled, and the remarks on releases without entries are the ones that their fillings come with. -/
structure FillsReleases (env : Environment) (path : Option Path) (options : Options) (root : Node) (project : Project)
    (arranged : Outline) (fillings : List Filling) (definitions : Definitions) (blocks : List Node) : Prop where
  found : (projectOf env path options).outcome = .ok project
  ordered : (arrange env path options project root (Outline.ofNodes root.children)).outcome = .ok arranged
  origin : arranged.releases.Perm (Outline.ofNodes root.children).releases ∨ ∃ version,
    arranged.releases.Perm ((Outline.ofNodes root.children).addRelease (datedHeading version env.today)).releases
  filled : List.Forall₂ (IsFilling project (fetchOf env path options)) (Release.relate arranged.releases) fillings
  written : blocks = ({ arranged with releases := fillings.map Filling.release, definitions } : Outline).nodes
  asked : ∃ calls, (run env path options root).calls = (projectOf env path options).calls ++ calls ∧
    calls.Perm (fillings.flatMap (Filling.calls (fetchOf env path options))) ∧
    ∀ filling ∈ fillings, (filling.calls (fetchOf env path options)).Sublist calls
  remarked : ((run env path options root).diagnostics.filter isOnEmptyRelease).Perm
    (fillings.flatMap (Filling.diagnostics path))

/-- Whatever git answers, and in whatever order threads get on and releases are sorted, these are filled all or
    nothing. -/
theorem run_fix_fills_releases (fix : options.fix) (completed : (run env path options root).outcome = .ok (some blocks)) :
    ∃ project arranged fillings definitions,
      FillsReleases env path options root project arranged fillings definitions blocks := by
  have hpath : isReviewed path := by
    by_contra other
    obtain ⟨directory, hdirectory⟩ := exists_directory_of_run completed
    rw [(run_of_not_isReviewed (by simpa using other) hdirectory).1] at completed
    cases completed
  obtain ⟨hroot, project, fixed, hproject, hfixed, hblocks⟩ := exists_fixed_of_run fix hpath completed
  have silent := diagnostics_fetchOf env path options
  obtain ⟨arranged, fillings, definitions, harranged, areFillings, rfl, done⟩ :=
    exists_fillings_of_reviewOutline fix silent hfixed
  refine ⟨project, arranged, fillings, definitions, ?_⟩
  exact {
    found := hproject
    ordered := harranged
    origin := perm_releases_of_arrange harranged
    filled := areFillings
    written := Option.some.inj hblocks
    asked := ⟨_, calls_run hpath hroot hproject, done.calls, done.asked⟩
    remarked := diagnostics_run hpath hroot hproject ▸ done.remarks }

/-! ### One release that is filled, and one that is not -/

section

open Text (ofString)

/-- A git with one commit up to the head. It does not know the older tag, and it is asked for it first: the thread of the
    second release gets on before that of the first one. -/
def gapEnvironment : Environment :=
  { sampleEnvironment with
    schedule := [0, 0, 1, 1, 1, 1, 1, 1]
    git
      | { arguments := [_, _, _, name], .. } =>
        if name = ofString "v0.1.0^\x7bcommit\x7d" then .finished 1 [] [] else .finished 0 (name.take 1) []
      | { arguments := [_, _, _, _, _], .. } => .finished 0 (LogRecord.print [History.sampleRecord 'b' ['a'] "Add"]) []
      | _ => .notStarted [] }

def gapOptions : Options := { sampleOptions with tags := some [ofString "v0.1.0", ofString "v1.0.0"] }

def gapProject : Project :=
  ⟨[ofString "v0.1.0", ofString "v1.0.0"], ofString "https://github.com/a/b", ofString "1.0.0"⟩

def gapRoot : Node :=
  { kind := .root
    children := [
      Node.heading 2 [Node.ofText (ofString "Unreleased")],
      Node.heading 2 [Node.ofText (ofString "1.0.0 - 2024-01-01")],
      Node.heading 2 [Node.ofText (ofString "0.1.0 - 2023-01-01")],
      Node.paragraph [Node.ofText (ofString "First.")]] }

def gapReleases : List Release :=
  ((reviewReleases gapEnvironment.schedule none true gapProject (fetchOf gapEnvironment none gapOptions)
    (Release.relate (Outline.ofNodes gapRoot.children).releases)).outcome.toOption).getD []

theorem exists_outcome_run_gap : ∃ blocks, (run gapEnvironment none gapOptions gapRoot).outcome = .ok (some blocks) := by
  let o := Outline.ofNodes gapRoot.children
  let unsorted := o.definitions.addAll (linkNodes gapProject gapReleases)
  let review := reviewReleases gapEnvironment.schedule none true gapProject (fetchOf gapEnvironment none gapOptions)
    (Release.relate o.releases)
  have reviewed : review.outcome = .ok gapReleases := by
    have completed : review.outcome.toOption.isSome := by decide +kernel
    show _ = Except.ok (review.outcome.toOption.getD [])
    cases h : review.outcome with
    | ok releases => rfl
    | error fault =>
        rw [h] at completed
        contradiction
  have comparable : Version.anyClash (unsorted.map (·.1)) = false := by decide +kernel
  have fixes : IsFix .merging none gapProject (fetchOf gapEnvironment none gapOptions) o o.releases gapReleases
      (stableSort (fun a b => Version.newestFirst a.1 b.1) unsorted) := {
    arranged := Sorting.merging.keeps (by decide +kernel)
    reviewed := outcome_reviewReleases_eq_ok.mp reviewed
    sorted := by
      show Version.sortNewest (·.1) unsorted = _
      rw [Version.sortNewest, comparable]
      rfl }
  exact ⟨_, (outcome_run_fix rfl rfl).mpr ⟨rfl, rfl, gapProject, by decide +kernel, o.releases, gapReleases, _, fixes, rfl⟩⟩

theorem run_fix_fills_releases_sample : gapOptions.fix ∧
    ∃ blocks, (run gapEnvironment none gapOptions gapRoot).outcome = .ok (some blocks) ∧
      ∃ project arranged fillings definitions,
        FillsReleases gapEnvironment none gapOptions gapRoot project arranged fillings definitions blocks := by
  obtain ⟨blocks, completed⟩ := exists_outcome_run_gap
  exact ⟨rfl, blocks, completed, run_fix_fills_releases rfl completed⟩

example : gapReleases.map (fun r => (r.body.content.length, r.groups.length)) = [(0, 1), (0, 0), (1, 0)] := by
  decide +kernel

end

end Review

end Changelog
