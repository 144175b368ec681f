import Changelog.Gather
import Changelog.Proofs.Journal
import Changelog.Proofs.Paired
import Mathlib.Data.List.TakeWhile

/-! # Whatever the schedule

A schedule decides when the steps of operations side by side come, but not which steps there are. Each operation has its
own steps in its own order, so that all come to what they would come to alone.
-/

namespace Changelog

section

variable {α : Type} {turns : List Nat} {running : List (List α)} {waiting : List (List α × List α)} {step : α}
  {rest steps : List α} {item : List α × List α}

theorem perm_flatten_set {turn : Nat} (h : running[turn]? = some (step :: rest)) :
    running.flatten.Perm (step :: (running.set turn rest).flatten) := by
  obtain ⟨inside, same⟩ := List.getElem?_eq_some_iff.mp h
  have split : running = running.take turn ++ (step :: rest) :: running.drop (turn + 1) := by
    rw [← same, List.getElem_cons_drop, List.take_append_drop]
  rw [List.set_eq_take_append_cons_drop, if_pos inside]
  conv_lhs => rw [split]
  simp only [List.flatten_append, List.flatten_cons, List.cons_append]
  exact List.perm_middle

/-- Each turn takes one step from where it waits, if any. -/
theorem perm_interleave (turns : List Nat) (running : List (List α)) (waiting : List (List α × List α)) :
    (interleave turns running waiting).Perm (running.flatten ++ waiting.flatMap fun item => item.1 ++ item.2) := by
  induction turns generalizing running waiting with
  | nil => exact .refl _
  | cons turn turns ih =>
      unfold interleave
      split
      next step rest h => exact ((ih _ _).cons step).trans ((perm_flatten_set h).symm.append_right _)
      next => exact ih running waiting
      next =>
        split
        next step opening rest waiting =>
          refine ((ih _ _).cons step).trans ?_
          simp only [List.flatMap_cons, List.cons_append]
          exact List.perm_middle.symm
        next rest waiting =>
          refine (ih _ _).trans ?_
          simp
        next => exact ih running []

/-- What one thread does stays in its order, and so does what waits to be begun. -/
theorem sublist_interleave (turns : List Nat) (running : List (List α)) (waiting : List (List α × List α)) :
    (∀ steps ∈ running, steps.Sublist (interleave turns running waiting)) ∧
      ∀ item ∈ waiting, (item.1 ++ item.2).Sublist (interleave turns running waiting) := by
  induction turns generalizing running waiting with
  | nil =>
      refine ⟨fun steps h => ?_, fun item h => ?_⟩
      · exact (List.sublist_flatten_of_mem h).trans (List.sublist_append_left _ _)
      · refine List.Sublist.trans ?_ (List.sublist_append_right _ _)
        rw [List.flatMap_def]
        exact List.sublist_flatten_of_mem (List.mem_map_of_mem h)
  | cons turn turns ih =>
      unfold interleave
      split
      next step rest h =>
        obtain ⟨threads, others⟩ := ih (running.set turn rest) waiting
        refine ⟨fun steps hsteps => ?_, fun item hitem => (others item hitem).cons step⟩
        obtain ⟨i, hi⟩ := List.mem_iff_getElem?.mp hsteps
        by_cases same : turn = i
        · subst same
          obtain rfl : steps = step :: rest := Option.some.inj (hi.symm.trans h)
          obtain ⟨inside, -⟩ := List.getElem?_eq_some_iff.mp h
          exact (threads rest (List.mem_set inside rest)).cons_cons step
        · refine (threads steps (List.mem_iff_getElem?.mpr ⟨i, ?_⟩)).cons step
          rw [List.getElem?_set_ne same, hi]
      next => exact ih running waiting
      next =>
        split
        next step opening rest waiting =>
          obtain ⟨threads, others⟩ := ih running ((opening, rest) :: waiting)
          refine ⟨fun steps hsteps => (threads steps hsteps).cons step, fun item hitem => ?_⟩
          rcases List.mem_cons.mp hitem with rfl | hitem
          · exact (others (opening, rest) List.mem_cons_self).cons_cons step
          · exact (others item (List.mem_cons_of_mem _ hitem)).cons step
        next rest waiting =>
          obtain ⟨threads, others⟩ := ih (running ++ [rest]) waiting
          refine ⟨fun steps hsteps => threads steps (List.mem_append_left _ hsteps), fun item hitem => ?_⟩
          rcases List.mem_cons.mp hitem with rfl | hitem
          · exact threads rest (List.mem_append_right _ (List.mem_singleton_self rest))
          · exact others item hitem
        next => exact ih running []

/-- Where nothing is left to threads, the items come in their order. -/
theorem interleave_of_unpaused (done : ∀ steps ∈ running, steps = []) (unpaused : ∀ item ∈ waiting, item.2 = []) :
    interleave turns running waiting = waiting.flatMap (·.1) := by
  induction turns generalizing running waiting with
  | nil =>
      have nothing : running.flatten = [] := List.flatten_eq_nil_iff.mpr done
      rw [interleave, nothing, List.nil_append]
      exact List.flatMap_congr fun item hitem => by rw [unpaused item hitem, List.append_nil]
  | cons turn turns ih =>
      unfold interleave
      split
      next step rest h => exact absurd (done _ (List.mem_of_getElem? h)) (List.cons_ne_nil step rest)
      next => exact ih done unpaused
      next =>
        split
        next step opening rest waiting =>
          obtain ⟨first, others⟩ := List.forall_mem_cons.mp unpaused
          have later : ∀ item ∈ (opening, rest) :: waiting, item.2 = [] := List.forall_mem_cons.mpr ⟨first, others⟩
          rw [ih done later]
          rfl
        next rest waiting =>
          obtain ⟨first, others⟩ := List.forall_mem_cons.mp unpaused
          have threads : ∀ steps ∈ running ++ [rest], steps = [] :=
            List.forall_mem_append.mpr ⟨done, List.forall_mem_singleton.mpr first⟩
          rw [ih threads others]
          rfl
        next => exact ih done nofun

end

namespace Action

variable {α : Type} {schedule : List Nat} {x : Action α} {xs : List (Action α)} {fault : Fault}

theorem parts_append (x : Action α) : x.parts.1 ++ x.parts.2 = x.steps := List.takeWhile_append_dropWhile

theorem filterMap_event?_steps (x : Action α) : x.steps.filterMap Step.event? = x.events := by
  have all : (x.events.map Step.did).filterMap Step.event? = x.events := by
    rw [List.filterMap_map]
    exact List.filterMap_some
  rw [steps, List.filterMap_append, all]
  cases x.outcome <;> simp [Step.event?]

theorem failed_mem_steps : .failed fault ∈ x.steps ↔ x.outcome = .error fault := by
  unfold steps
  cases x.outcome <;> simp [eq_comm]

theorem perm_steps_gather (schedule : List Nat) (xs : List (Action α)) :
    (interleave schedule [] (xs.map parts)).Perm (xs.flatMap steps) := by
  have perm := perm_interleave schedule [] (xs.map parts)
  simpa only [List.flatten_nil, List.nil_append, List.flatMap_map, parts_append] using perm

theorem perm_events_gather (schedule : List Nat) (xs : List (Action α)) :
    (gather schedule xs).events.Perm (xs.flatMap events) := by
  have perm := (perm_steps_gather schedule xs).filterMap Step.event?
  simp only [List.filterMap_flatMap, filterMap_event?_steps] at perm
  exact perm

theorem sublist_events_gather (h : x ∈ xs) : x.events.Sublist (gather schedule xs).events := by
  have sub := (sublist_interleave schedule [] (xs.map parts)).2 x.parts (List.mem_map_of_mem h)
  rw [parts_append] at sub
  have events := sub.filterMap Step.event?
  rwa [filterMap_event?_steps] at events

/-- Operations that do not pause come one after the other. -/
theorem events_gather_of_unpaused (h : ∀ x ∈ xs, .paused ∉ x.events) : (gather schedule xs).events = xs.flatMap events := by
  have whole : ∀ x ∈ xs, x.parts = (x.steps, []) := by
    intro x hx
    have running : ∀ step ∈ x.steps, !step.isPause := by
      intro step hstep
      cases step with
      | failed fault => rfl
      | did event =>
          have done : event ∈ x.events := by
            rw [← filterMap_event?_steps]
            exact List.mem_filterMap.mpr ⟨_, hstep, rfl⟩
          cases event with
          | paused => exact absurd done (h x hx)
          | git _ | log _ | found _ => rfl
    rw [parts, List.takeWhile_eq_self_iff.mpr running, List.dropWhile_eq_nil_iff.mpr running]
  have unpaused : ∀ item ∈ xs.map parts, item.2 = [] := by
    intro item hitem
    obtain ⟨x, hx, rfl⟩ := List.mem_map.mp hitem
    rw [whole x hx]
  show (interleave schedule [] (xs.map parts)).filterMap Step.event? = _
  rw [interleave_of_unpaused (by simp) unpaused, List.flatMap_map, List.filterMap_flatMap]
  exact List.flatMap_congr fun x hx => by rw [whole x hx, filterMap_event?_steps]

/-- Operations side by side come to an end if each of them does. -/
theorem outcome_gather_eq_ok {as : List α} :
    (gather schedule xs).outcome = .ok as ↔ List.Forall₂ (fun x a => x.outcome = .ok a) xs as := by
  have failing : (interleave schedule [] (xs.map parts)).findSome? Step.fault? = none ↔
      ∀ x ∈ xs, ∀ fault, x.outcome ≠ .error fault := by
    rw [List.findSome?_eq_none_iff]
    constructor
    · intro h x hx fault hfault
      have failed := (perm_steps_gather schedule xs).mem_iff.mpr
        (List.mem_flatMap.mpr ⟨x, hx, failed_mem_steps.mpr hfault⟩)
      exact absurd (h _ failed) (by simp [Step.fault?])
    · intro h step hstep
      obtain ⟨x, hx, hstep⟩ := List.mem_flatMap.mp ((perm_steps_gather schedule xs).mem_iff.mp hstep)
      cases step with
      | did event => rfl
      | failed fault => exact absurd (failed_mem_steps.mp hstep) (h x hx fault)
  rw [← mapM_eq_ok_iff]
  unfold gather
  dsimp only
  split
  next fault hfault =>
    refine iff_of_false nofun fun ended => ?_
    have none : (interleave schedule [] (xs.map parts)).findSome? Step.fault? = none := by
      refine failing.mpr fun x hx fault hfault => ?_
      obtain ⟨a, -, hxa⟩ := exists_left_of_forall₂ (mapM_eq_ok_iff.mp ended).flip hx
      rw [hfault] at hxa
      contradiction
    rw [none] at hfault
    contradiction
  next => exact .rfl

/-! ## Diagnostics and calls -/

theorem perm_diagnostics_gather (schedule : List Nat) (xs : List (Action α)) :
    (gather schedule xs).diagnostics.Perm (xs.flatMap diagnostics) := by
  have perm := (perm_events_gather schedule xs).filterMap Event.diagnostic?
  rwa [List.filterMap_flatMap] at perm

theorem perm_calls_gather (schedule : List Nat) (xs : List (Action α)) :
    (gather schedule xs).calls.Perm (xs.flatMap calls) := by
  have perm := (perm_events_gather schedule xs).filterMap Event.call?
  rwa [List.filterMap_flatMap] at perm

theorem sublist_calls_gather (h : x ∈ xs) : x.calls.Sublist (gather schedule xs).calls :=
  (sublist_events_gather h).filterMap Event.call?

theorem diagnostics_gather_of_unpaused (h : ∀ x ∈ xs, .paused ∉ x.events) :
    (gather schedule xs).diagnostics = xs.flatMap diagnostics := by
  rw [diagnostics, events_gather_of_unpaused h, List.filterMap_flatMap]
  rfl

end Action

end Changelog
