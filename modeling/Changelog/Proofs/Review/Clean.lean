import Changelog.Proofs.Markdown.Exact
import Changelog.Proofs.Review.Converge

/-! # Fixing without a remark

When fixing remarks on nothing, every release was as it has to be: it has a clear heading with a valid version and a
date, and groups of known types with something in them. None was filled, because what fills a release is remarked on.
-/

namespace Changelog

namespace Review

variable {env : Environment} {path : Option Path} {options : Options} {root : Node} {project : Project} {fetch : Fetch}
  {o : Outline} {r r' : Release} {ordered releases reviewed : List Release} {definitions : Definitions} {blocks : List Node}
  {seen : List Text} {schedule : List Nat} {fix : Bool}

/-- A release that there is nothing to remark on. -/
structure IsFine (r : Release) : Prop where
  clear : IsClear r
  filled : r.isEmpty = false
  date : r.isUnreleased = false → ∃ date, r.date = some date ∧ date.isEmpty = false ∧ isDate date
  groups : ∀ group ∈ r.groups, groupFindings r.version group = []

/-! ## Headings -/

theorem of_versionFindings_eq_nil (h : versionFindings r = []) :
    (∃ version, r.version? = some version ∧ Version.isValid version) ∧
    ∃ date, r.date = some date ∧ date.isEmpty = false ∧ isDate date := by
  obtain ⟨hversion, hdate⟩ := List.append_eq_nil_iff.mp h
  refine ⟨?_, ?_⟩
  · cases hv : r.version? with
    | none => simp [hv] at hversion
    | some version => exact ⟨version, rfl, by simpa [hv] using hversion⟩
  · cases hd : r.date.filter (!·.isEmpty) with
    | none => simp [hd] at hdate
    | some date =>
        obtain ⟨hsome, hfilled⟩ := Option.filter_eq_some_iff.mp hd
        exact ⟨date, hsome, by simpa using hfilled, by simpa [hd] using hdate⟩

theorem of_releaseFindings_eq_nil (h : releaseFindings fix seen r = []) : IsClear r ∧
    (r.isUnreleased = false → ∃ date, r.date = some date ∧ date.isEmpty = false ∧ isDate date) := by
  unfold releaseFindings at h
  split at h
  · contradiction
  next depth =>
    split at h
    · contradiction
    next parseable =>
      have versions := (List.append_eq_nil_iff.mp h).2
      simp only [ne_eq, not_not] at depth
      simp only [Bool.not_eq_true', Bool.not_eq_false] at parseable
      cases hun : r.isUnreleased with
      | true =>
          refine ⟨⟨depth, parseable, unreleased, of_decide_eq_true hun, Or.inl rfl⟩, fun h => by contradiction⟩
      | false =>
          rw [hun] at versions
          obtain ⟨⟨version, hversion, hvalid⟩, hdate⟩ := of_versionFindings_eq_nil versions
          exact ⟨⟨depth, parseable, version, Option.eq_some_of_filter_eq_some hversion, Or.inr hvalid⟩, fun _ => hdate⟩

theorem IsClear.exists_isValid (h : IsClear r) (released : r.isUnreleased = false) :
    ∃ version, r.version = some version ∧ Version.isValid version := by
  obtain ⟨version, hversion, hvalid⟩ := h.version
  refine ⟨version, hversion, hvalid.resolve_left fun same => ?_⟩
  exact of_decide_eq_false released (hversion.trans (congrArg some same))

theorem versionFindings_eq_nil (fine : IsFine r) (released : r.isUnreleased = false) : versionFindings r = [] := by
  obtain ⟨version, hversion, valid⟩ := fine.clear.exists_isValid released
  obtain ⟨date, hdate, filled, clear⟩ := fine.date released
  have said : r.date.filter (!·.isEmpty) = some date := Option.filter_eq_some_iff.mpr ⟨hdate, by simp [filled]⟩
  simp [versionFindings, fine.clear.version?_eq.1, hversion, valid, said, clear]

theorem releaseRemarks_eq_nil (fine : IsFine r) (settled : IsSettled r) (new : ∀ version ∈ r.version?, version ∉ seen) :
    releaseRemarks seen r = [] := by
  have heading : releaseFindings false seen r = [] := by
    rw [releaseFindings_of_isSettled settled new]
    split
    · rfl
    next released => exact versionFindings_eq_nil fine (Bool.eq_false_iff.mpr released)
  have groups : r.groups.flatMap (groupRemarks r) = [] :=
    List.flatMap_eq_nil_iff.mpr fun group hgroup => List.map_eq_nil_iff.mpr (fine.groups group hgroup)
  simp [releaseRemarks, headingRemarks, heading, fine.filled, groups]

theorem remarksAfter_eq_nil (fine : ∀ r ∈ releases, IsFine r) (settled : ∀ r ∈ releases, IsSettled r)
    (distinct : (releases.filterMap Release.version?).Nodup) : remarksAfter [] releases = [] := by
  rw [List.eq_nil_iff_forall_not_mem]
  intro remark hremark
  obtain ⟨r, hr, seen, new, found⟩ := exists_of_mem_remarksAfter settled distinct hremark
  rw [releaseRemarks_eq_nil (fine r hr) (settled r hr) new] at found
  contradiction

/-! ## Titles and groups -/

theorem hasTitle_of_isCopy {t : Node} (ht : o.heading = some t) (copy : Outline.titleNode.IsCopy t) : o.hasTitle := by
  obtain ⟨child, hchild, hvalue⟩ := @Node.IsCopy.exists_soleChild _ _ Outline.titleText copy rfl
  have depth : t.depth = some 1 := copy.depth_eq
  simp [Outline.hasTitle, ht, depth, hchild, hvalue]

theorem groupFindings_of_isCopy {type : Text} {group : Section} (known : type ∈ changeTypes)
    (copy : (Node.heading 3 [Node.ofText type]).IsCopy group.heading) (filled : group.isEmpty = false)
    (version : Option Text) : groupFindings version group = [] := by
  obtain ⟨child, hchild, hvalue⟩ := @Node.IsCopy.exists_soleChild _ _ type copy rfl
  have depth : group.heading.depth = some 3 := copy.depth_eq
  have categorized : type ≠ uncategorized := by
    have : ∀ type ∈ changeTypes, type ≠ uncategorized := by decide
    exact this type known
  simp [groupFindings, Section.hasGroupHeading, Section.groupType?, depth, hchild, hvalue, categorized, known, filled]

/-! ## Releases that were filled -/

theorem groupFindings_ne_nil_of_mem_groupsOf {commits : List Commit} {group : Section} (h : group ∈ groupsOf commits)
    (version : Option Text) : groupFindings version group ≠ [] := by
  obtain ⟨entries, rfl⟩ := exists_entries_of_mem_groupsOf h
  simp [groupFindings, Section.addEntries, Section.addBlock, Section.group, Section.hasGroupHeading, Section.groupType?,
    Node.heading, Node.soleChild?, Node.ofText]

/-- A release that is left without a finding was not empty, or it has groups of commits now. -/
theorem of_backfill_eq_nil (h : (backfill fix project fetch r).outcome = .ok (r', [])) :
    r' = r ∧ r.isEmpty = false ∨ ∃ group ∈ r'.groups, ∃ commits, group ∈ groupsOf commits := by
  rcases backfill_cases fix project fetch r with ⟨filled, heq⟩ | ⟨-, heq⟩ | ⟨version, previous, -, heq⟩
  · rw [heq] at h
    cases h
    exact Or.inl ⟨rfl, filled⟩
  · rw [heq] at h
    cases h
  · rw [heq] at h
    obtain ⟨_, -, ⟨commits, -, hfill⟩ | ⟨_, -, -, hfindings⟩⟩ := of_fillFrom h
    · unfold fill at hfill
      dsimp only at hfill
      split at hfill
      · cases hfill
      next hgroups =>
        cases hfill
        obtain ⟨group, rest, heq⟩ := List.exists_cons_of_ne_nil (List.isEmpty_eq_false_iff.mp (by simpa using hgroups))
        have hmem : group ∈ groupsOf commits := heq ▸ List.mem_cons_self
        exact Or.inr ⟨group, List.mem_append_right _ hmem, commits, hmem⟩
    · cases hfindings

theorem isFine_of_reviewRelease (h : (reviewRelease path true project fetch seen r).outcome = .ok r')
    (quiet : (reviewRelease path true project fetch seen r).diagnostics = []) : r' = r ∧ IsFine r := by
  unfold reviewRelease at h quiet
  rw [Action.bind_outcome, outcome_remark] at h
  rw [Action.diagnostics_bind (outcome_remark _), diagnostics_remark, List.append_eq_nil_iff, List.map_eq_nil_iff] at quiet
  obtain ⟨hheading, quiet⟩ := quiet
  obtain ⟨clear, hdate⟩ := of_releaseFindings_eq_nil (List.map_eq_nil_iff.mp hheading)
  have readable : isReadable r := by simp [isReadable, clear.depth, clear.isParseable]
  simp only [Except.bind, readable, Bool.not_true, Bool.false_eq_true, if_false] at h quiet
  obtain ⟨⟨filled, findings⟩, hbackfill, h⟩ := Action.outcome_bind_eq_ok.mp h
  rw [Action.diagnostics_bind hbackfill, List.append_eq_nil_iff] at quiet
  simp only [Action.bind_outcome, outcome_remark, Except.bind, Action.pure_outcome, Except.ok.injEq] at h
  subst h
  dsimp only at quiet
  rw [Action.diagnostics_bind (outcome_remark _), Action.diagnostics_bind (outcome_remark _), diagnostics_remark,
    diagnostics_remark, List.append_eq_nil_iff, List.append_eq_nil_iff, List.map_eq_nil_iff, List.map_eq_nil_iff,
    List.map_eq_nil_iff, List.flatMap_eq_nil_iff] at quiet
  obtain ⟨_, rfl, hgroups, _⟩ := quiet
  have findings : ∀ group ∈ filled.groups, groupFindings filled.version group = [] := fun group hgroup =>
    List.map_eq_nil_iff.mp (hgroups group hgroup)
  rcases of_backfill_eq_nil hbackfill with ⟨rfl, hempty⟩ | ⟨group, hgroup, commits, hmem⟩
  · exact ⟨rfl, clear, hempty, hdate, findings⟩
  · exact absurd (findings group hgroup) (groupFindings_ne_nil_of_mem_groupsOf hmem _)

/-! ## The whole run -/

theorem isFine_of_reviewReleases
    (h : List.Forall₂ (fun r r' => (reviewRelease path true project fetch [] r).outcome = .ok r') releases reviewed)
    (quiet : (reviewReleases schedule path true project fetch releases).diagnostics = []) :
    reviewed = releases ∧ ∀ r ∈ releases, IsFine r := by
  have each : (reviews path true project fetch [] releases).flatMap Action.diagnostics = [] :=
    (quiet ▸ Action.perm_diagnostics_gather schedule _).nil_eq.symm
  clear quiet
  generalize ([] : List Text) = seen at each
  induction h generalizing seen with
  | nil => exact ⟨rfl, nofun⟩
  | cons hfirst _ ih =>
      rw [reviews, List.flatMap_cons, List.append_eq_nil_iff] at each
      rw [outcome_reviewRelease, ← outcome_reviewRelease seen] at hfirst
      obtain ⟨rfl, fine⟩ := isFine_of_reviewRelease hfirst each.1
      obtain ⟨rfl, others⟩ := ih _ each.2
      exact ⟨rfl, List.forall_mem_cons.mpr ⟨fine, others⟩⟩

/-- Nothing but the releases is remarked on while an outline is fixed. -/
theorem diagnostics_reviewOutline_fix (fix : options.fix) (noAdd : options.add = none)
    (h : IsFix env.sorting path project fetch o ordered releases definitions) :
    (reviewOutline env path options project fetch root o).diagnostics =
      (reviewReleases env.schedule path true project fetch (Release.relate ordered)).diagnostics := by
  have arranged : arrange env path options project root o = pure
      { o with heading := some (fixedTitle o.heading), releases := ordered } := by
    simp only [arrange, addRequested, noAdd, setTitle_eq, Option.filter_none, pure_bind, h.arranged]
    rfl
  unfold reviewOutline
  simp only [fix, if_true, arranged, pure_bind]
  rw [Action.diagnostics_bind (outcome_reviewReleases_eq_ok.mpr h.reviewed), link, Action.diagnostics_bind_eq_nil rfl fun _ => rfl,
    List.append_nil]

theorem diagnostics_run_fix (fix : options.fix) (noAdd : options.add = none) (hpath : isReviewed path)
    (hroot : root.kind = .root) (hproject : (projectOf env path options).outcome = .ok project)
    (h : IsFix env.sorting path project (fetchOf env path options) (Outline.ofNodes root.children) ordered releases
      definitions) :
    (run env path options root).diagnostics =
      (reviewReleases env.schedule path true project (fetchOf env path options) (Release.relate ordered)).diagnostics := by
  rw [diagnostics_run hpath hroot hproject]
  exact diagnostics_reviewOutline_fix fix noAdd h

theorem diagnostics_run_of_isOrdered (fix : options.fix) (noAdd : options.add = none) (hpath : isReviewed path)
    (hroot : root.kind = .root) (hproject : (projectOf env path options).outcome = .ok project)
    (h : IsOrdered project (Outline.ofNodes root.children))
    (quiet : remarksAfter [] (Release.relate (Outline.ofNodes root.children).releases) = []) :
    (run env path options root).diagnostics = [] := by
  rw [diagnostics_run_fix fix noAdd hpath hroot hproject h.isFix]
  exact diagnostics_reviewReleases_of_filled h.filled quiet

/-- A document that is fixed without a remark has nothing but fine releases, and they keep all they hold. -/
theorem IsFix.isFine (fix : options.fix) (noAdd : options.add = none) (hpath : isReviewed path) (hroot : root.kind = .root)
    (hproject : (projectOf env path options).outcome = .ok project)
    (h : IsFix env.sorting path project (fetchOf env path options) (Outline.ofNodes root.children) ordered releases
      definitions)
    (quiet : (run env path options root).diagnostics = []) :
    releases = Release.relate ordered ∧ ∀ r ∈ releases, IsFine r := by
  rw [diagnostics_run_fix fix noAdd hpath hroot hproject h] at quiet
  obtain ⟨rfl, fine⟩ := isFine_of_reviewReleases h.reviewed quiet
  exact ⟨rfl, fine⟩

end Review

end Changelog
