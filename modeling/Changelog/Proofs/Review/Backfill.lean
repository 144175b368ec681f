import Changelog.Proofs.Gather
import Changelog.Proofs.Outline.Parallel
import Changelog.Review.Run

/-! # What reviewing does to releases

Reviewing changes a release in one way only: under an empty one the groups of the commits from its gap are put.
Without a fix nothing changes, and the remarks can be told from the releases alone.
-/

namespace Changelog

namespace Review

variable {path : Option Path} {fix : Bool} {project : Project} {fetch : Fetch} {seen : List Text}
  {schedule : List Nat} {q r r' s : Release}
  {releases reviewed : List Release}

@[simp] theorem outcome_remark (remarks : List Remark) : (remark path remarks).outcome = .ok () := rfl

@[simp] theorem diagnostics_remark (remarks : List Remark) :
    (remark path remarks).diagnostics = remarks.map (Remark.diagnostic path) := Action.diagnostics_report _

/-! ## Releases that are filled -/

def withGroups (groups : List Section) (r : Release) : Release :=
  r.mapBody fun s => { s with children := s.children ++ groups }

theorem groupsOf_eq (commits : List Commit) : groupsOf commits =
    let entries := (commits.filter (!·.isMerge)).map Commit.entry
    if entries.isEmpty then [] else [(Section.group 3 uncategorized).addEntries entries] := by
  rw [groupsOf, classify, List.filterMap_append]
  -- the groups of the other types have no entries
  refine (congrArg (· ++ _) (List.filterMap_eq_nil_iff.mpr fun pair hpair => ?_)).trans ?_
  · obtain ⟨type, -, rfl⟩ := List.mem_map.mp hpair
    rfl
  · cases (commits.filter (!·.isMerge)).map Commit.entry <;> rfl

theorem exists_entries_of_mem_groupsOf {commits : List Commit} {group : Section} (h : group ∈ groupsOf commits) :
    ∃ entries, group = (Section.group 3 uncategorized).addEntries entries := by
  rw [groupsOf_eq] at h
  dsimp only at h
  split at h
  · contradiction
  · exact ⟨_, List.mem_singleton.mp h⟩

theorem eq_of_mem_nodesAll_groupsOf {commits : List Commit} {block : Node} (h : block ∈ Section.nodesAll (groupsOf commits)) :
    block = Node.heading 3 [Node.ofText uncategorized] ∨ ∃ entries, block = Entry.list entries := by
  obtain ⟨group, hgroup, hblock⟩ := Section.mem_nodesAll.mp h
  obtain ⟨entries, rfl⟩ := exists_entries_of_mem_groupsOf hgroup
  rw [Section.nodes_eq] at hblock
  simp only [Section.addEntries, Section.addBlock, Section.group, Section.nodesAll, List.nil_append, List.append_nil,
    List.mem_cons, List.not_mem_nil, or_false] at hblock
  exact hblock.imp_right fun heq => ⟨entries, heq⟩

/-- How a review leaves a release: as it was, or an empty one with the groups of the commits in its gap. -/
inductive IsBackfilled (project : Project) (fetch : Fetch) (r : Release) : Release → Prop where
  | kept : IsBackfilled project fetch r r
  | filled {version previous : Text} {gap : Gap} {commits : List Commit} :
    isReadable r →
    fillable? true r = some (version, previous) →
    gapOf project version previous = .ok gap →
    (fetch gap.range).outcome = .ok commits →
    IsBackfilled project fetch r (withGroups (groupsOf commits) r)

theorem filter_isEmpty_eq_some_iff {text : Option Text} {filled : Text} :
    text.filter (!·.isEmpty) = some filled ↔ text = some filled ∧ filled ≠ [] := by
  simp [Option.filter_eq_some_iff]

theorem fillable?_eq_some_iff {version previous : Text} : fillable? fix r = some (version, previous) ↔
    (fix ∧ r.isEmpty) ∧ (r.version = some version ∧ version ≠ []) ∧ r.previous = some previous ∧ previous ≠ [] := by
  rw [← filter_isEmpty_eq_some_iff, ← filter_isEmpty_eq_some_iff, fillable?, Release.version?]
  cases r.version.filter (!·.isEmpty) <;> cases r.previous.filter (!·.isEmpty) <;> simp

theorem isEmpty_of_fillable? {version previous : Text} (h : fillable? fix r = some (version, previous)) :
    fix ∧ r.isEmpty :=
  (fillable?_eq_some_iff.mp h).1

theorem outcome_fillFrom (r : Release) (version previous : Text) :
    (fillFrom project fetch r version previous).outcome = (gapOf project version previous).bind fun gap =>
      match (fetch gap.range).outcome with
      | .ok commits => .ok (fill r version commits)
      | .error (.git cause) => .ok (r, [.noCommits version cause])
      | .error fault => .error fault := by
  unfold fillFrom
  simp only [Action.bind_outcome, Action.outcome_ofExcept, Action.outcome_log, Except.bind, Action.outcome_attemptGit,
    Action.outcome_inThread]
  cases gapOf project version previous with
  | error fault => rfl
  | ok gap =>
      simp only
      cases (fetch gap.range).outcome with
      | ok commits =>
          simp only
          split <;> rfl
      | error fault => cases fault <;> rfl

theorem fill_eq_kept_or_filled (r : Release) (version : Text) (commits : List Commit) :
    (fill r version commits).1 = r ∨ (fill r version commits).1 = withGroups (groupsOf commits) r := by
  unfold fill
  dsimp only
  split
  · exact Or.inl rfl
  · exact Or.inr rfl

theorem of_fillFrom {version previous : Text} {findings : List Finding}
    (h : (fillFrom project fetch r version previous).outcome = .ok (r', findings)) :
    ∃ gap, gapOf project version previous = .ok gap ∧
      ((∃ commits, (fetch gap.range).outcome = .ok commits ∧ fill r version commits = (r', findings)) ∨
        ∃ cause, (fetch gap.range).outcome = .error (.git cause) ∧ r' = r ∧ findings = [.noCommits version cause]) := by
  rw [outcome_fillFrom] at h
  cases hgap : gapOf project version previous with
  | error fault => simp [hgap, Except.bind] at h
  | ok gap =>
      refine ⟨gap, rfl, ?_⟩
      simp only [hgap, Except.bind] at h
      split at h
      next commits hfetch => exact .inl ⟨commits, hfetch, Except.ok.inj h⟩
      next cause hfetch =>
        cases h
        exact .inr ⟨cause, hfetch, rfl, rfl⟩
      next => contradiction

/-- A release is left alone, it is empty and cannot be filled, or it is filled. -/
theorem backfill_cases (fix : Bool) (project : Project) (fetch : Fetch) (r : Release) :
    r.isEmpty = false ∧ backfill fix project fetch r = pure (r, []) ∨
      (r.isEmpty ∧ fillable? fix r = none) ∧ backfill fix project fetch r = pure (r, [.emptyRelease r.version]) ∨
      ∃ version previous, fillable? fix r = some (version, previous) ∧
        backfill fix project fetch r = fillFrom project fetch r version previous := by
  unfold backfill
  cases hempty : r.isEmpty with
  | false => exact .inl ⟨rfl, rfl⟩
  | true =>
      cases hfillable : fillable? fix r with
      | none => exact .inr (.inl ⟨⟨rfl, rfl⟩, rfl⟩)
      | some pair => exact .inr (.inr ⟨pair.1, pair.2, rfl, rfl⟩)

theorem isBackfilled_of_backfill {findings : List Finding} (readable : isReadable r)
    (h : (backfill fix project fetch r).outcome = .ok (r', findings)) : IsBackfilled project fetch r r' := by
  rcases backfill_cases fix project fetch r with ⟨-, heq⟩ | ⟨-, heq⟩ | ⟨version, previous, fillable, heq⟩
  · rw [heq] at h
    cases h
    exact .kept
  · rw [heq] at h
    cases h
    exact .kept
  · rw [heq] at h
    have hfix : fix = true := (isEmpty_of_fillable? fillable).1
    obtain ⟨gap, hgap, ⟨commits, hfetch, hfill⟩ | ⟨_, -, rfl, -⟩⟩ := of_fillFrom h
    · have hr' : (fill r version commits).1 = r' := congrArg Prod.fst hfill
      rcases fill_eq_kept_or_filled r version commits with same | filled
      · rw [← hr', same]
        exact .kept
      · rw [← hr', filled]
        exact .filled readable (hfix ▸ fillable) hgap hfetch
    · exact .kept

theorem outcome_reviewRelease (seen : List Text) : (reviewRelease path fix project fetch seen r).outcome =
    if isReadable r then (backfill fix project fetch r).outcome.map (·.1) else .ok r := by
  unfold reviewRelease
  rw [Action.bind_outcome, outcome_remark]
  cases isReadable r with
  | false => rfl
  | true =>
      simp only [Except.bind, Bool.not_true, Bool.false_eq_true, if_false, if_true, Action.bind_outcome]
      cases (backfill fix project fetch r).outcome <;> rfl

theorem isBackfilled_of_reviewRelease (h : (reviewRelease path fix project fetch seen r).outcome = .ok r') :
    IsBackfilled project fetch r r' := by
  rw [outcome_reviewRelease] at h
  split at h
  next readable =>
    cases hfill : (backfill fix project fetch r).outcome with
    | error fault => simp [hfill, Except.map] at h
    | ok result =>
        obtain rfl : result.1 = r' := by simpa [hfill, Except.map] using h
        exact isBackfilled_of_backfill readable hfill
  next =>
    cases h
    exact .kept

/-- Releases are reviewed one by one; neither what was seen before nor the schedule plays a part in what becomes of
    them. -/
theorem outcome_reviewReleases_eq_ok : (reviewReleases schedule path fix project fetch releases).outcome = .ok reviewed ↔
    List.Forall₂ (fun r r' => (reviewRelease path fix project fetch [] r).outcome = .ok r') releases reviewed := by
  have each (seen : List Text) : List.Forall₂ (fun x r' => x.outcome = .ok r')
      (reviews path fix project fetch seen releases) reviewed ↔
        List.Forall₂ (fun r r' => (reviewRelease path fix project fetch [] r).outcome = .ok r') releases reviewed := by
    induction releases generalizing seen reviewed with
    | nil => simp [reviews]
    | cons r rest ih => simp only [reviews, List.forall₂_cons_left_iff, ih, outcome_reviewRelease]
  rw [reviewReleases, Action.outcome_gather_eq_ok, each]

theorem exists_of_mem_reviews {x : Action Release} (h : x ∈ reviews path fix project fetch seen releases) :
    ∃ r ∈ releases, ∃ seen, x = reviewRelease path fix project fetch seen r := by
  induction releases generalizing seen with
  | nil => contradiction
  | cons r rest ih =>
      rcases List.mem_cons.mp h with rfl | h
      · exact ⟨r, List.mem_cons_self, seen, rfl⟩
      · obtain ⟨r, hr, hx⟩ := ih h
        exact ⟨r, List.mem_cons_of_mem _ hr, hx⟩

theorem exists_mem_reviews (h : r ∈ releases) : ∃ seen', reviewRelease path fix project fetch seen' r ∈
    reviews path fix project fetch seen releases := by
  induction releases generalizing seen with
  | nil => contradiction
  | cons first rest ih =>
      rcases List.mem_cons.mp h with rfl | h
      · exact ⟨seen, List.mem_cons_self⟩
      · obtain ⟨seen', hx⟩ := @ih (seenAfter seen first) h
        exact ⟨seen', List.mem_cons_of_mem _ hx⟩

theorem forall₂_reviewRelease_of_filled (filled : ∀ r ∈ releases, r.isEmpty = false) :
    List.Forall₂ (fun r r' => (reviewRelease path fix project fetch seen r).outcome = .ok r') releases releases := by
  refine List.forall₂_same.mpr fun r hr => ?_
  rw [outcome_reviewRelease, backfill, filled r hr]
  cases isReadable r <;> rfl

/-! ## Releases that stay empty -/

theorem withGroups_nil (r : Release) : withGroups [] r = r := by
  obtain ⟨heading, ⟨⟨⟩, content, children⟩, index, previous⟩ := r
  simp [withGroups, Release.mapBody]

theorem isEmpty_withGroups {groups : List Section} : (withGroups groups r).isEmpty ↔ r.isEmpty ∧ groups = [] := by
  simp only [withGroups, Release.mapBody, Release.isEmpty, Section.isEmpty, Bool.and_eq_true, List.isEmpty_iff,
    List.append_eq_nil_iff, and_assoc]

theorem fill_eq_self_iff (empty : r.isEmpty) (version : Text) (commits : List Commit) :
    (fill r version commits).1 = r ↔ groupsOf commits = [] := by
  unfold fill
  dsimp only
  split
  next hgroups => simpa using hgroups
  next hgroups =>
    refine iff_of_false (fun h => ?_) (by simpa using hgroups)
    have same : withGroups (groupsOf commits) r = r := h
    rw [← same, isEmpty_withGroups] at empty
    simp [empty.2] at hgroups

theorem fillFrom_again {version previous : Text} (hr : r.isEmpty) (hs : s.isEmpty)
    (h : ((fillFrom project fetch r version previous).outcome.map (·.1)) = .ok r) :
    ((fillFrom project fetch s version previous).outcome.map (·.1)) = .ok s := by
  rw [outcome_fillFrom] at h ⊢
  cases hgap : gapOf project version previous with
  | error fault => simp [hgap, Except.bind, Except.map] at h
  | ok gap =>
      simp only [hgap, Except.bind] at h ⊢
      cases hfetch : (fetch gap.range).outcome with
      | ok commits =>
          simp only [hfetch] at h ⊢
          have none := (fill_eq_self_iff hr version commits).mp (Except.ok.inj h)
          exact congrArg Except.ok ((fill_eq_self_iff hs version commits).mpr none)
      | error fault =>
          cases fault with
          | git cause => rfl
          | _ => simp [hfetch, Except.map] at h

/-- A release that was reviewed is left as it is by another review. -/
theorem reviewRelease_again (h : (reviewRelease path true project fetch [] q).outcome = .ok r)
    (hversion : s.version = r.version) (hprevious : s.previous = r.previous) (hreadable : isReadable s = isReadable r)
    (hempty : s.isEmpty = r.isEmpty) : (reviewRelease path true project fetch [] s).outcome = .ok s := by
  rw [outcome_reviewRelease]
  split
  next readable =>
    cases empty : s.isEmpty with
    | false =>
        rw [backfill, empty]
        rfl
    | true =>
        have empty' : r.isEmpty := hempty ▸ empty
        have unfilled : r = q := by
          cases isBackfilled_of_reviewRelease h with
          | kept => rfl
          | filled _ _ _ _ => rw [(isEmpty_withGroups.mp empty').2, withGroups_nil]
        subst unfilled
        rw [outcome_reviewRelease, if_pos (hreadable ▸ readable)] at h
        have fillable : fillable? true s = fillable? true r := by
          simp only [fillable?, hempty, Release.version?, hversion, hprevious]
        rw [backfill, empty, fillable]
        rw [backfill, empty'] at h
        simp only [Bool.not_true, Bool.false_eq_true, if_false] at h ⊢
        cases hfillable : fillable? true r with
        | none => rfl
        | some pair =>
            rw [hfillable] at h
            exact fillFrom_again empty' empty h
  next => rfl

end Review

end Changelog
