import Changelog.Survey.Tally
import Mathlib.Data.List.Basic

/-! # Every node is counted once

A survey walks over the nodes below a root with a list of those that are still to be visited. Each turn takes one node from
that list and puts its children there, so what has been counted and what is still below the waiting nodes always come to the
same. The walk is over after as many turns as there are nodes below the root, and each kind has then been counted as often as
it occurs there.
-/

namespace Changelog

namespace Node

theorem count_eq (kind : Kind) (node : Node) :
    node.count kind = countAll kind node.children + if node.kind = kind then 1 else 0 := by
  cases node
  simp only [count]

theorem countAll_append (kind : Kind) (nodes others : List Node) :
    countAll kind (nodes ++ others) = countAll kind nodes + countAll kind others := by
  induction nodes with
  | nil => simp [countAll]
  | cons node nodes ih => simp [countAll, ih, Nat.add_assoc]

end Node

namespace Survey

/-! ## Tallies -/

namespace Tally

variable {kind other : Kind} {n : Nat} {tally : Tally}

theorem count_nil (kind : Kind) : count kind [] = 0 := rfl

theorem count_cons (kind : Kind) (item : Kind × Nat) (tally : Tally) :
    count kind (item :: tally) = if item.1 = kind then item.2 else tally.count kind := by
  unfold count
  rw [List.find?_cons]
  by_cases same : item.1 = kind <;> simp [same]

theorem count_add (kind other : Kind) (tally : Tally) :
    (tally.add other).count kind = tally.count kind + if other = kind then 1 else 0 := by
  induction tally with
  | nil => simp [add, count_cons, count_nil]
  | cons item tally ih =>
      rw [add]
      split
      next same =>
        subst same
        rw [count_cons, count_cons]
        split <;> rfl
      next differ =>
        rw [count_cons, count_cons, ih]
        split
        next same => simp [← same, Ne.symm differ]
        next => rfl

theorem mem_kinds_add : kind ∈ (tally.add other).map Prod.fst ↔ kind = other ∨ kind ∈ tally.map Prod.fst := by
  induction tally with
  | nil => simp [add]
  | cons item tally ih =>
      rw [add]
      split
      next same => simp [← same]
      next => rw [List.map_cons, List.map_cons, List.mem_cons, List.mem_cons, ih, or_left_comm]

/-- Is no kind listed twice, and none that was not met? -/
structure IsExact (tally : Tally) : Prop where
  nodup : (tally.map Prod.fst).Nodup
  pos : ∀ item ∈ tally, 0 < item.2

theorem isExact_nil : IsExact [] := ⟨List.nodup_nil, nofun⟩

theorem IsExact.add (h : tally.IsExact) (kind : Kind) : (tally.add kind).IsExact := by
  induction tally with
  | nil => exact ⟨by simp [Tally.add], by simp [Tally.add]⟩
  | cons item tally ih =>
      obtain ⟨fresh, nodup⟩ := List.nodup_cons.mp h.nodup
      obtain ⟨first, pos⟩ := List.forall_mem_cons.mp h.pos
      rw [Tally.add]
      split
      next => exact ⟨List.nodup_cons.mpr ⟨fresh, nodup⟩, List.forall_mem_cons.mpr ⟨Nat.succ_pos _, pos⟩⟩
      next differ =>
        have rest := ih ⟨nodup, pos⟩
        refine ⟨List.nodup_cons.mpr ⟨?_, rest.nodup⟩, List.forall_mem_cons.mpr ⟨first, rest.pos⟩⟩
        rw [mem_kinds_add, not_or]
        exact ⟨differ, fresh⟩

theorem IsExact.mem_iff (h : tally.IsExact) : (kind, n) ∈ tally ↔ 0 < n ∧ n = tally.count kind := by
  induction tally with
  | nil =>
      simp only [List.not_mem_nil, count_nil, false_iff, not_and]
      exact Nat.ne_of_gt
  | cons item tally ih =>
      obtain ⟨fresh, nodup⟩ := List.nodup_cons.mp h.nodup
      obtain ⟨first, pos⟩ := List.forall_mem_cons.mp h.pos
      rw [List.mem_cons, count_cons]
      split
      next same =>
        subst same
        have behind : (item.1, n) ∉ tally := fun hmem => fresh (List.mem_map.mpr ⟨_, hmem, rfl⟩)
        constructor
        · intro hmem
          have here : (item.1, n) = item := hmem.resolve_right behind
          have number : n = item.2 := congrArg Prod.snd here
          exact ⟨number ▸ first, number⟩
        · rintro ⟨-, rfl⟩
          exact Or.inl rfl
      next differ =>
        rw [← ih ⟨nodup, pos⟩]
        exact or_iff_right fun here => differ (congrArg Prod.fst here).symm

end Tally

/-! ## Turns -/

/-- A walk over nodes: what has been counted, and the nodes that are still to be visited, the next one at the end. -/
structure Walk where
  tally : Tally
  waiting : List Node

namespace Walk

/-- One turn: the last of the waiting nodes is counted, and its children wait in its place. Without waiting nodes there is
    none. -/
def next? (walk : Walk) : Option Walk :=
  walk.waiting.getLast?.map fun node =>
    { tally := walk.tally.add node.kind, waiting := walk.waiting.dropLast ++ node.children }

/-- Is the walk over after so many turns, with this tally? -/
inductive Ends : Walk → Nat → Tally → Prop where
  /-- No node waits. -/
  | finished {walk : Walk} : walk.next? = none → Ends walk 0 walk.tally
  /-- A node is visited, and the walk goes on. -/
  | turn {walk next : Walk} {turns : Nat} {tally : Tally} :
      walk.next? = some next → Ends next turns tally → Ends walk (turns + 1) tally

variable {walk next : Walk} {turns : Nat} {tally : Tally}

theorem next?_eq_none_iff : walk.next? = none ↔ walk.waiting = [] := by
  rw [next?, Option.map_eq_none_iff, List.getLast?_eq_none_iff]

theorem next?_eq_some_iff : walk.next? = some next ↔ ∃ front node, walk.waiting = front ++ [node] ∧
    next = { tally := walk.tally.add node.kind, waiting := front ++ node.children } := by
  unfold next?
  constructor
  · intro h
    obtain ⟨node, hlast, rfl⟩ := Option.map_eq_some_iff.mp h
    obtain ⟨front, hwaiting⟩ := List.getLast?_eq_some_iff.mp hlast
    exact ⟨front, node, hwaiting, by rw [hwaiting, List.dropLast_concat]⟩
  · rintro ⟨front, node, hwaiting, rfl⟩
    simp [hwaiting]

theorem sizeAll_next (h : walk.next? = some next) : Node.sizeAll next.waiting + 1 = Node.sizeAll walk.waiting := by
  obtain ⟨front, node, hwaiting, rfl⟩ := next?_eq_some_iff.mp h
  simp [hwaiting, Node.sizeAll_append, Node.sizeAll, Node.size_eq, Nat.add_assoc]

/-- What has been counted and what is still to be counted come to the same after a turn. -/
theorem count_next (h : walk.next? = some next) (kind : Kind) :
    next.tally.count kind + Node.countAll kind next.waiting = walk.tally.count kind + Node.countAll kind walk.waiting := by
  obtain ⟨front, node, hwaiting, rfl⟩ := next?_eq_some_iff.mp h
  simp only [hwaiting, Node.countAll_append, Node.countAll, Node.count_eq, Tally.count_add]
  omega

theorem isExact_next (h : walk.next? = some next) (start : walk.tally.IsExact) : next.tally.IsExact := by
  obtain ⟨front, node, -, rfl⟩ := next?_eq_some_iff.mp h
  exact start.add node.kind

/-- Counting by a stack, with the next node on top, goes on as the walk does. -/
theorem tallyStack_next (h : walk.next? = some next) :
    tallyStack next.tally next.waiting.reverse = tallyStack walk.tally walk.waiting.reverse := by
  obtain ⟨front, node, hwaiting, rfl⟩ := next?_eq_some_iff.mp h
  -- the end of the list is the top of the stack, so the children lie there in reversed order
  rw [hwaiting, List.reverse_concat, tallyStack, List.reverse_append]

/-! ## Whole walks -/

namespace Ends

theorem turns_eq (h : walk.Ends turns tally) : turns = Node.sizeAll walk.waiting := by
  induction h with
  | finished stop => rw [next?_eq_none_iff.mp stop, Node.sizeAll]
  | turn step _ ih => rw [ih, sizeAll_next step]

theorem count_eq (h : walk.Ends turns tally) (kind : Kind) :
    tally.count kind = walk.tally.count kind + Node.countAll kind walk.waiting := by
  induction h with
  | finished stop => rw [next?_eq_none_iff.mp stop, Node.countAll, Nat.add_zero]
  | turn step _ ih => rw [ih, count_next step]

theorem isExact (h : walk.Ends turns tally) (start : walk.tally.IsExact) : tally.IsExact := by
  induction h with
  | finished _ => exact start
  | turn step _ ih => exact ih (isExact_next step start)

theorem eq_tallyStack (h : walk.Ends turns tally) : tally = tallyStack walk.tally walk.waiting.reverse := by
  induction h with
  | finished stop => rw [next?_eq_none_iff.mp stop, List.reverse_nil, tallyStack]
  | turn step _ ih => rw [ih, tallyStack_next step]

end Ends

theorem exists_ends (walk : Walk) : ∃ turns tally, walk.Ends turns tally := by
  cases step : walk.next? with
  | none => exact ⟨0, walk.tally, .finished step⟩
  | some next =>
      obtain ⟨turns, tally, ends⟩ := exists_ends next
      exact ⟨turns + 1, tally, .turn step ends⟩
termination_by Node.sizeAll walk.waiting
decreasing_by
  rw [← sizeAll_next step]
  exact Nat.lt_succ_self _

theorem ends_iff : walk.Ends turns tally ↔
    turns = Node.sizeAll walk.waiting ∧ tally = tallyStack walk.tally walk.waiting.reverse := by
  refine ⟨fun h => ⟨h.turns_eq, h.eq_tallyStack⟩, ?_⟩
  rintro ⟨rfl, rfl⟩
  obtain ⟨turns, tally, ends⟩ := exists_ends walk
  rwa [← ends.turns_eq, ← ends.eq_tallyStack]

end Walk

/-! ## Surveys -/

/-- The walk over the nodes below a root is over after as many turns as there are such nodes, and its tally counts each kind
    as often as it occurs there. The tally lists the kinds that occur, each once. -/
theorem walk_counts_each_node (root : Node) :
    (∀ turns counted, Walk.Ends ⟨[], root.children⟩ turns counted ↔
      turns = Node.sizeAll root.children ∧ counted = tally root) ∧
    (∀ kind, (tally root).count kind = Node.countAll kind root.children) ∧
    ((tally root).map Prod.fst).Nodup ∧
    ∀ kind n, (kind, n) ∈ tally root ↔ 0 < n ∧ n = Node.countAll kind root.children := by
  have ends : Walk.Ends ⟨[], root.children⟩ (Node.sizeAll root.children) (tally root) := Walk.ends_iff.mpr ⟨rfl, rfl⟩
  have counts : ∀ kind, (tally root).count kind = Node.countAll kind root.children := by
    intro kind
    rw [ends.count_eq kind]
    exact Nat.zero_add _
  have listed : (tally root).IsExact := ends.isExact Tally.isExact_nil
  refine ⟨fun turns counted => Walk.ends_iff, counts, listed.nodup, fun kind n => ?_⟩
  rw [listed.mem_iff, counts kind]

/-- A heading with a text and a reference. The reference is visited before the text in front of it. -/
example : tally { kind := .root, children := [.heading 2 [.ofText ['a'], .linkReference ['b'] ['b'] .shortcut
    [.ofText ['b']]]] } = [(.heading, 1), (.linkReference, 1), (.text, 2)] := by
  decide +kernel

end Survey

end Changelog
