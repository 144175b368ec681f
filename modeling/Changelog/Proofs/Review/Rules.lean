import Changelog.Proofs.Review.Lint

/-! # Which rules a review goes by

Every diagnostic on a release goes against one of the rules for releases and groups, whatever git answers meanwhile.
-/

namespace Changelog

def Rule.all : List Rule :=
  [filename, title, latestReleaseFirst, latestDefinitionFirst, addNewRelease, releaseHeadingDepth, releaseHeading,
    uniqueRelease, releaseVersion, releaseDate, noEmptyRelease, groupHeading, groupHeadingType, noUncategorizedChanges,
    noEmptyGroup, releaseVersionLink, releaseVersionLinkReference]

theorem Rule.name_injective {a b : Rule} (h : a.name = b.name) : a = b := by
  have found : ∀ rule : Rule, all.find? (fun other => other.name = rule.name) = some rule := by
    intro rule
    cases rule <;> decide
  have := found a
  rw [h, found b] at this
  exact (Option.some.inj this).symm

namespace Review

variable {env : Environment} {path : Option Path} {options : Options} {project : Project} {fetch : Fetch} {fix : Bool}
  {schedule : List Nat} {r r' : Release} {releases : List Release} {seen : List Text} {finding : Finding} {findings : List Finding}
  {diagnostic : Diagnostic}

/-! ## Findings -/

def versionRules : List Rule := [.releaseVersion, .releaseDate]

def headingRules : List Rule := [.releaseHeadingDepth, .releaseHeading, .uniqueRelease] ++ versionRules

def groupRules : List Rule := [.groupHeading, .groupHeadingType, .noUncategorizedChanges, .noEmptyGroup]

def releaseRules : List Rule := headingRules ++ .noEmptyRelease :: groupRules

theorem rule_of_mem_versionFindings (h : finding ∈ versionFindings r) : finding.rule ∈ versionRules := by
  unfold versionFindings at h
  rcases List.mem_append.mp h with h | h
  · split at h
    · rw [List.mem_singleton.mp h]
      decide
    · split at h
      · contradiction
      · rw [List.mem_singleton.mp h]
        decide
  · split at h
    · rw [List.mem_singleton.mp h]
      decide
    · split at h
      · contradiction
      · rw [List.mem_singleton.mp h]
        decide

theorem rule_of_mem_releaseFindings (h : finding ∈ releaseFindings fix seen r) : finding.rule ∈ headingRules := by
  unfold releaseFindings at h
  split at h
  · rw [List.mem_singleton.mp h]
    decide
  · split at h
    · rw [List.mem_singleton.mp h]
      decide
    · rcases List.mem_append.mp h with h | h
      · split at h
        · contradiction
        · rcases List.mem_append.mp h with h | h
          · split at h
            · rw [List.mem_singleton.mp h]
              decide
            · contradiction
          · split at h
            · rw [List.mem_singleton.mp h]
              decide
            · contradiction
      · split at h
        · contradiction
        · exact List.mem_append_right _ (rule_of_mem_versionFindings h)

theorem rule_of_mem_groupFindings {version : Option Text} {group : Section} (h : finding ∈ groupFindings version group) :
    finding.rule ∈ groupRules := by
  unfold groupFindings at h
  split at h
  · rw [List.mem_singleton.mp h]
    decide
  · rcases List.mem_append.mp h with h | h
    · split at h
      · rw [List.mem_singleton.mp h]
        exact (by decide : Rule.noUncategorizedChanges ∈ groupRules)
      · split at h
        · contradiction
        · rw [List.mem_singleton.mp h]
          decide
    · split at h
      · rw [List.mem_singleton.mp h]
        exact (by decide : Rule.noEmptyGroup ∈ groupRules)
      · contradiction

theorem rule_of_backfill (h : (backfill fix project fetch r).outcome = .ok (r', findings)) :
    ∀ finding ∈ findings, finding.rule = .noEmptyRelease := by
  rcases backfill_cases fix project fetch r with ⟨-, heq⟩ | ⟨-, heq⟩ | ⟨version, previous, -, heq⟩
  · rw [heq] at h
    cases h
    exact nofun
  · rw [heq] at h
    cases h
    simp [Finding.rule]
  · rw [heq] at h
    obtain ⟨_, -, ⟨commits, -, hfill⟩ | ⟨cause, -, -, rfl⟩⟩ := of_fillFrom h
    · have hfindings : (fill r version commits).2 = findings := congrArg Prod.snd hfill
      rw [← hfindings, fill]
      split
      · simp [Finding.rule]
      · exact nofun
    · simp [Finding.rule]

/-! ## Diagnostics -/

/-- Does a diagnostic go against one of some rules? -/
def IsAgainst (rules : List Rule) (diagnostic : Diagnostic) : Prop := ∃ rule ∈ rules, diagnostic.rule = rule.name

theorem IsAgainst.rule_ne {rules : List Rule} {rule : Rule} (h : IsAgainst rules diagnostic) (other : rule ∉ rules) :
    diagnostic.rule ≠ rule.name := by
  obtain ⟨own, hown, hrule⟩ := h
  intro same
  exact other (Rule.name_injective (same.symm.trans hrule) ▸ hown)

theorem isAgainst_of_mem_remark {rules : List Rule} {remarks : List Remark}
    (h : ∀ remark ∈ remarks, remark.finding.rule ∈ rules) (hmem : diagnostic ∈ (remark path remarks).diagnostics) :
    IsAgainst rules diagnostic := by
  rw [diagnostics_remark] at hmem
  obtain ⟨remark, hremark, rfl⟩ := List.mem_map.mp hmem
  exact ⟨remark.finding.rule, h remark hremark, rfl⟩

theorem diagnostics_fetchFrom (git : Git) (options : Options) (directory : Path) (range : Range) :
    (fetchFrom git options directory range).diagnostics = [] := by
  unfold fetchFrom
  split
  · exact History.diagnostics_commitsWithSubmodules git directory.text range options.commitLimit
  · exact History.diagnostics_commits git directory.text range options.commitLimit

theorem diagnostics_fetchOf (env : Environment) (path : Option Path) (options : Options) (range : Range) :
    (fetchOf env path options range).diagnostics = [] :=
  Action.diagnostics_bind_eq_nil rfl fun directory => diagnostics_fetchFrom env.git options directory range

theorem diagnostics_backfill (silent : ∀ range, (fetch range).diagnostics = []) (fix : Bool) (project : Project)
    (r : Release) : (backfill fix project fetch r).diagnostics = [] := by
  rcases backfill_cases fix project fetch r with ⟨-, heq⟩ | ⟨-, heq⟩ | ⟨version, previous, -, heq⟩
  · rw [heq, Action.diagnostics_pure]
  · rw [heq, Action.diagnostics_pure]
  · rw [heq]
    refine Action.diagnostics_bind_eq_nil rfl fun gap => Action.diagnostics_bind_eq_nil rfl fun _ =>
      Action.diagnostics_bind_eq_nil ?_ fun answer => ?_
    · rw [Action.diagnostics_attemptGit, Action.diagnostics_inThread, silent]
    · cases answer with
      | error cause => exact Action.diagnostics_bind_eq_nil rfl fun _ => rfl
      | ok commits =>
          dsimp only
          split
          · exact Action.diagnostics_bind_eq_nil rfl fun _ => rfl
          · rfl

theorem isAgainst_of_mem_reviewRelease (silent : ∀ range, (fetch range).diagnostics = [])
    (h : diagnostic ∈ (reviewRelease path fix project fetch seen r).diagnostics) : IsAgainst releaseRules diagnostic := by
  have heading : ∀ remark ∈ headingRemarks fix seen r, remark.finding.rule ∈ releaseRules := by
    intro remark hremark
    obtain ⟨finding, hfinding, rfl⟩ := List.mem_map.mp hremark
    exact List.mem_append_left _ (rule_of_mem_releaseFindings hfinding)
  unfold reviewRelease at h
  rw [Action.diagnostics_bind (outcome_remark _)] at h
  rcases List.mem_append.mp h with h | h
  · exact isAgainst_of_mem_remark heading h
  · split at h
    · contradiction
    · cases hfill : (backfill fix project fetch r).outcome with
      | error fault =>
          rw [Action.diagnostics_bind_of_error hfill, diagnostics_backfill silent] at h
          contradiction
      | ok result =>
          have empty : ∀ remark ∈ result.2.map (fun finding => { finding, position := result.1.heading.position : Remark }),
              remark.finding.rule ∈ releaseRules := by
            intro remark hremark
            obtain ⟨finding, hfinding, rfl⟩ := List.mem_map.mp hremark
            rw [rule_of_backfill hfill finding hfinding]
            decide
          have groups : ∀ remark ∈ result.1.groups.flatMap (groupRemarks result.1), remark.finding.rule ∈ releaseRules := by
            intro remark hremark
            obtain ⟨group, _, hgroup⟩ := List.mem_flatMap.mp hremark
            obtain ⟨finding, hfinding, rfl⟩ := List.mem_map.mp hgroup
            exact List.mem_append_right _ (List.mem_cons_of_mem _ (rule_of_mem_groupFindings hfinding))
          rw [Action.diagnostics_bind hfill, diagnostics_backfill silent, List.nil_append] at h
          dsimp only at h
          rw [Action.diagnostics_bind (outcome_remark _), Action.diagnostics_bind (outcome_remark _),
            Action.diagnostics_pure, List.append_nil] at h
          rcases List.mem_append.mp h with h | h
          · exact isAgainst_of_mem_remark empty h
          · exact isAgainst_of_mem_remark groups h

theorem isAgainst_of_mem_reviewReleases (silent : ∀ range, (fetch range).diagnostics = [])
    (h : diagnostic ∈ (reviewReleases schedule path fix project fetch releases).diagnostics) :
    IsAgainst releaseRules diagnostic := by
  obtain ⟨x, hx, h⟩ := List.mem_flatMap.mp ((Action.perm_diagnostics_gather schedule _).mem_iff.mp h)
  obtain ⟨r, -, seen, rfl⟩ := exists_of_mem_reviews hx
  exact isAgainst_of_mem_reviewRelease silent h

end Review

end Changelog
