import Changelog.History.Range
import Changelog.Proofs.Journal

/-! # Reading history reports nothing

Whatever git answers, what is read from it is logged at most. Only a review reports diagnostics.
-/

namespace Changelog

theorem Action.diagnostics_mapM_eq_nil {α β : Type} {f : α → Action β} (h : ∀ a, (f a).diagnostics = []) (items : List α) :
    (items.mapM f).diagnostics = [] := by
  induction items with
  | nil => rfl
  | cons a rest ih =>
      rw [List.mapM_cons]
      exact diagnostics_bind_eq_nil (h a) fun _ => diagnostics_bind_eq_nil ih fun _ => rfl

namespace Git

theorem diagnostics_run (git : Git) (directory : Text) (arguments : List Text) :
    (git.run directory arguments).diagnostics = [] := by
  refine Action.diagnostics_bind_eq_nil rfl fun _ => Action.diagnostics_bind_eq_nil rfl fun _ => ?_
  split
  · rfl
  · rfl
  · split
    · rfl
    · dsimp only
      split <;> rfl

theorem diagnostics_tags (git : Git) (directory : Text) : (git.tags directory).diagnostics = [] :=
  Action.diagnostics_bind_eq_nil (git.diagnostics_run _ _) fun _ => rfl

theorem diagnostics_remoteUrl (git : Git) (directory remote : Text) :
    (git.remoteUrl directory remote).diagnostics = [] := by
  refine Action.diagnostics_bind_eq_nil ?_ fun answer => ?_
  · rw [Action.diagnostics_attemptGit, diagnostics_run]
  · cases answer <;> rfl

theorem diagnostics_resolve (git : Git) (directory ref : Text) : (git.resolve directory ref).diagnostics = [] := by
  refine Action.diagnostics_bind_eq_nil ?_ fun answer => ?_
  · rw [Action.diagnostics_attemptGit, diagnostics_run]
  · cases answer with
    | error => rfl
    | ok output =>
        dsimp only
        split <;> rfl

end Git

namespace History

variable (git : Git) (directory : Text) (range : Range) (limit : Int)

theorem diagnostics_readLog (upper : Text) (lower : Option Text) :
    (readLog git directory limit upper lower).diagnostics = [] := by
  unfold readLog
  split
  · rfl
  · exact Action.diagnostics_bind_eq_nil (git.diagnostics_run _ _) fun _ => rfl

theorem diagnostics_resolveRange : (resolveRange git directory range).diagnostics = [] := by
  have upper : ∀ lower : Option Text, (do return (← git.resolve directory range.upper.ref, lower) :
      Action (Text × Option Text)).diagnostics = [] := fun _ =>
    Action.diagnostics_bind_eq_nil (git.diagnostics_resolve directory _) fun _ => rfl
  unfold resolveRange
  split
  · exact Action.diagnostics_bind_eq_nil rfl upper
  · exact Action.diagnostics_bind_eq_nil (by rw [Action.diagnostics_map, git.diagnostics_resolve]) upper

theorem diagnostics_readRange (upper : Text) (lower : Option Text) :
    (readRange git directory range limit upper lower).diagnostics = [] := by
  refine Action.diagnostics_bind_eq_nil (diagnostics_readLog git directory _ upper lower) fun listed => ?_
  generalize (if range.upper.inclusive then listed else listed.filter fun commit => commit.oid != upper) = kept
  dsimp only
  split
  · split
    · exact Action.diagnostics_bind_eq_nil (diagnostics_readLog git directory 1 _ none) fun _ => rfl
    · rfl
  · rfl

theorem diagnostics_readResolved (upper : Text) (lower : Option Text) :
    (readResolved git directory range limit upper lower).diagnostics = [] :=
  Action.diagnostics_bind_eq_nil (diagnostics_readRange git directory range limit upper lower) fun _ =>
    Action.diagnostics_bind_eq_nil rfl fun _ => rfl

theorem diagnostics_commits : (commits git directory range limit).diagnostics = [] :=
  Action.diagnostics_bind_eq_nil (diagnostics_resolveRange git directory range) fun ends =>
    diagnostics_readResolved git directory range limit ends.1 ends.2

theorem diagnostics_submoduleCommits (change : SubmoduleChange) :
    (submoduleCommits git directory limit change).diagnostics = [] := by
  refine Action.diagnostics_bind_eq_nil ?_ fun answer => ?_
  · rw [Action.diagnostics_attemptGit, diagnostics_commits]
  · cases answer with
    | ok found => rfl
    | error cause => exact Action.diagnostics_bind_eq_nil rfl fun _ => rfl

theorem diagnostics_changedSubmodules (upper lower : Text) :
    (changedSubmodules git directory limit upper lower).diagnostics = [] :=
  Action.diagnostics_bind_eq_nil (git.diagnostics_run _ _) fun _ =>
    Action.diagnostics_bind_eq_nil
      (Action.diagnostics_mapM_eq_nil (diagnostics_submoduleCommits git directory limit) _) fun _ => rfl

theorem diagnostics_commitsWithSubmodules : (commitsWithSubmodules git directory range limit).diagnostics = [] := by
  refine Action.diagnostics_bind_eq_nil (diagnostics_resolveRange git directory range) fun ends =>
    Action.diagnostics_bind_eq_nil (diagnostics_readResolved git directory range limit ends.1 ends.2) fun _ => ?_
  split
  · rfl
  · exact Action.diagnostics_bind_eq_nil (diagnostics_changedSubmodules git directory limit _ _) fun _ => rfl

end History

end Changelog
