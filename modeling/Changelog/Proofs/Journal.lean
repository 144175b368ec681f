import Changelog.Journal
import Mathlib.Data.List.Forall2

/-! # Outcomes, diagnostics and calls

What an operation that is put together from others comes to, and what it reports and asks git on the way.
-/

namespace Changelog

namespace Action

variable {α β : Type} {x : Action α} {f : α → Action β}

theorem outcome_bind_eq_ok {b : β} :
    (x >>= f).outcome = .ok b ↔ ∃ a, x.outcome = .ok a ∧ (f a).outcome = .ok b := by
  rw [bind_outcome]
  cases x.outcome <;> simp [Except.bind]

theorem outcome_bind {a : α} (h : x.outcome = .ok a) : (x >>= f).outcome = (f a).outcome := by
  rw [bind_outcome, h]
  rfl

theorem diagnostics_bind {a : α} (h : x.outcome = .ok a) : (x >>= f).diagnostics = x.diagnostics ++ (f a).diagnostics := by
  simp [diagnostics, h]

theorem diagnostics_bind_of_error {fault : Fault} (h : x.outcome = .error fault) :
    (x >>= f).diagnostics = x.diagnostics := by
  simp [diagnostics, h]

@[simp] theorem diagnostics_pure (a : α) : (pure a : Action α).diagnostics = [] := rfl

@[simp] theorem outcome_log (level : Level) (channel : Channel) (message : Text) :
    (log level channel message).outcome = .ok () := rfl

@[simp] theorem diagnostics_log (level : Level) (channel : Channel) (message : Text) :
    (log level channel message).diagnostics = [] := rfl

@[simp] theorem outcome_report (reported : List Diagnostic) : (report reported).outcome = .ok () := rfl

@[simp] theorem diagnostics_report (reported : List Diagnostic) : (report reported).diagnostics = reported := by
  simp only [diagnostics, report, List.filterMap_map]
  exact List.filterMap_some

@[simp] theorem outcome_ofExcept (outcome : Except Fault α) : (ofExcept outcome).outcome = outcome := rfl

@[simp] theorem diagnostics_ofExcept (outcome : Except Fault α) : (ofExcept outcome).diagnostics = [] := rfl

@[simp] theorem outcome_fail (fault : Fault) : (fail fault : Action α).outcome = .error fault := rfl

@[simp] theorem diagnostics_fail (fault : Fault) : (fail fault : Action α).diagnostics = [] := rfl

@[simp] theorem outcome_inThread (x : Action α) : (inThread x).outcome = x.outcome := rfl

@[simp] theorem diagnostics_inThread (x : Action α) : (inThread x).diagnostics = x.diagnostics := rfl

theorem outcome_attemptGit (x : Action α) : (attemptGit x).outcome =
    match x.outcome with
    | .ok a => .ok (.ok a)
    | .error (.git cause) => .ok (.error cause)
    | .error fault => .error fault := by
  unfold attemptGit
  split <;> simp_all

theorem diagnostics_attemptGit (x : Action α) : (attemptGit x).diagnostics = x.diagnostics := by
  unfold attemptGit
  split <;> rfl

theorem diagnostics_bind_eq_nil (hx : x.diagnostics = []) (hf : ∀ a, (f a).diagnostics = []) :
    (x >>= f).diagnostics = [] := by
  cases h : x.outcome with
  | ok a => rw [diagnostics_bind h, hx, hf a, List.nil_append]
  | error fault => rw [diagnostics_bind_of_error h, hx]

theorem diagnostics_map (g : α → β) (x : Action α) : (g <$> x).diagnostics = x.diagnostics := by
  rw [← bind_pure_comp]
  cases h : x.outcome with
  | ok a => rw [diagnostics_bind h, diagnostics_pure, List.append_nil]
  | error fault => exact diagnostics_bind_of_error h

/-! ## Calls -/

theorem calls_bind {a : α} (h : x.outcome = .ok a) : (x >>= f).calls = x.calls ++ (f a).calls := by
  simp [calls, h]

theorem calls_bind_of_error {fault : Fault} (h : x.outcome = .error fault) : (x >>= f).calls = x.calls := by
  simp [calls, h]

@[simp] theorem calls_log (level : Level) (channel : Channel) (message : Text) :
    (log level channel message).calls = [] := rfl

@[simp] theorem calls_ofExcept (outcome : Except Fault α) : (ofExcept outcome).calls = [] := rfl

@[simp] theorem calls_report (reported : List Diagnostic) : (report reported).calls = [] := by
  simp only [calls, report, List.filterMap_map]
  exact List.filterMap_eq_nil_iff.mpr fun _ _ => rfl

@[simp] theorem calls_inThread (x : Action α) : (inThread x).calls = x.calls := rfl

theorem calls_attemptGit (x : Action α) : (attemptGit x).calls = x.calls := by
  unfold attemptGit
  split <;> rfl

theorem calls_bind_of_nil (hf : ∀ a, (f a).calls = []) : (x >>= f).calls = x.calls := by
  cases h : x.outcome with
  | ok a => rw [calls_bind h, hf a, List.append_nil]
  | error fault => exact calls_bind_of_error h

theorem calls_map (g : α → β) (x : Action α) : (g <$> x).calls = x.calls := by
  rw [← bind_pure_comp]
  exact calls_bind_of_nil fun _ => rfl

/-! ## Events -/

theorem sublist_events_bind (x : Action α) (f : α → Action β) : x.events.Sublist (x >>= f).events := by
  rw [bind_events]
  exact List.sublist_append_left x.events _

theorem sublist_events_bind_of_outcome {a : α} (h : x.outcome = .ok a) : (f a).events.Sublist (x >>= f).events := by
  rw [bind_events, h]
  exact List.sublist_append_right x.events (f a).events

theorem not_mem_events_bind {event : Event} (hx : event ∉ x.events) (hf : ∀ a, event ∉ (f a).events) :
    event ∉ (x >>= f).events := by
  rw [bind_events]
  refine List.not_mem_append hx ?_
  split
  · exact hf _
  · exact List.not_mem_nil

theorem events_attemptGit (x : Action α) : (attemptGit x).events = x.events := by
  unfold attemptGit
  split <;> rfl

end Action

end Changelog
