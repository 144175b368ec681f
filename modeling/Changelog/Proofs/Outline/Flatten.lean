import Changelog.Proofs.Outline.Layout

/-! # Writing sections out again

The place where blocks are added is always the end of the last section of the last section and so on, and nothing
was opened under it yet. So what is added comes last when the section is written out, and a section that was built
from some blocks is written out as these blocks.
-/

namespace Changelog

namespace Section

/-- The way leads to the last section at each step, and what it ends at satisfies `p`. -/
def EndsIn (p : Section → Prop) : (way : List Nat) → Section → Prop
  | [], s => p s
  | step :: way, s => ∃ init last, s.children = init ++ [last] ∧ step = init.length ∧ EndsIn p way last

namespace EndsIn

variable {p q : Section → Prop} {f : Section → Section} {s : Section} {way : List Nat}

theorem append {tail : List Nat} (ends : EndsIn (EndsIn p tail) way s) : EndsIn p (way ++ tail) s := by
  induction way generalizing s with
  | nil => exact ends
  | cons step way ih =>
      obtain ⟨init, last, hs, hstep, ends⟩ := ends
      exact ⟨init, last, hs, hstep, ih ends⟩

theorem take (n : Nat) (ends : EndsIn p way s) : EndsIn (fun _ => True) (way.take n) s := by
  induction way generalizing s n with
  | nil =>
      rw [List.take_nil]
      trivial
  | cons step way ih =>
      cases n with
      | zero => trivial
      | succ n =>
          obtain ⟨init, last, hs, hstep, ends⟩ := ends
          exact ⟨init, last, hs, hstep, ih n ends⟩

theorem exists_at (ends : EndsIn p way s) : ∃ t, s.at? way = some t ∧ EndsIn (· = t) way s := by
  induction way generalizing s with
  | nil => exact ⟨s, rfl, rfl⟩
  | cons step way ih =>
      obtain ⟨init, last, hs, rfl, ends⟩ := ends
      obtain ⟨t, ht, at_t⟩ := ih ends
      refine ⟨t, ?_, init, last, hs, rfl, at_t⟩
      simp [at?, hs, ht]

theorem children_modifyAt {init : List Section} {last : Section} (hs : s.children = init ++ [last]) :
    (modifyAt f (init.length :: way) s).children = init ++ [modifyAt f way last] := by
  have inside : init.length < (init ++ [last]).length := by simp
  simp only [modifyAt, hs]
  rw [List.modify_eq_take_cons_drop inside]
  simp

theorem changed (h : ∀ t, p t → q (f t)) (ends : EndsIn p way s) : EndsIn q way (modifyAt f way s) := by
  induction way generalizing s with
  | nil => exact h s ends
  | cons step way ih =>
      obtain ⟨init, last, hs, rfl, ends⟩ := ends
      exact ⟨init, _, children_modifyAt hs, rfl, ih ends⟩

end EndsIn

theorem nodesAll_append (xs ys : List Section) : nodesAll (xs ++ ys) = nodesAll xs ++ nodesAll ys := by
  induction xs with
  | nil => rfl
  | cons x xs ih => simp only [List.cons_append, nodesAll, ih, List.append_assoc]

theorem mem_nodesAll {block : Node} {sections : List Section} :
    block ∈ nodesAll sections ↔ ∃ s ∈ sections, block ∈ s.nodes := by
  induction sections with
  | nil => simp [nodesAll]
  | cons s rest ih => simp [nodesAll, ih]

theorem nodes_eq (s : Section) : s.nodes = s.heading :: s.content ++ nodesAll s.children := by
  cases s
  rw [nodes]

/-- What is added at the end of the last section comes last. -/
theorem nodes_modifyAt {p : Section → Prop} {f : Section → Section} {extra : List Node}
    (h : ∀ t, p t → (f t).nodes = t.nodes ++ extra) {s : Section} {way : List Nat} (ends : EndsIn p way s) :
    (modifyAt f way s).nodes = s.nodes ++ extra := by
  induction way generalizing s with
  | nil => exact h s ends
  | cons step way ih =>
      obtain ⟨init, last, hs, rfl, ends⟩ := ends
      rw [nodes_eq, EndsIn.children_modifyAt hs, nodes_eq s, hs, nodesAll_append, nodesAll_append]
      simp [nodesAll, ih ends, modifyAt]

theorem nodes_addBlock (block : Node) {s : Section} (leaf : s.children = []) :
    (addBlock block s).nodes = s.nodes ++ [block] := by
  simp [nodes_eq, addBlock, leaf, nodesAll]

theorem nodes_append (child s : Section) : (append child s).nodes = s.nodes ++ child.nodes := by
  rw [nodes_eq (append child s), nodes_eq s]
  simp [append, nodesAll_append, nodesAll]

theorem nodes_addChild (heading : Node) (s : Section) : (addChild heading s).nodes = s.nodes ++ [heading] := by
  simp [addChild, nodes_append, nodes_eq { heading }, nodesAll]

/-- Where a section has no sections under it, the next block can be put. -/
def IsOpenAt (way : List Nat) (s : Section) : Prop := EndsIn (fun t => t.children = []) way s

theorem isOpenAt_add {s : Section} {way : List Nat} (h : IsOpenAt way s) (block : Node) :
    IsOpenAt (add (s, way) block).2 (add (s, way) block).1 := by
  unfold add
  split
  next depth _ =>
    obtain ⟨t, ht, ends⟩ := (h.take (depth - 3)).exists_at
    simp only [ht, Option.map_some, Option.getD_some]
    refine EndsIn.append (ends.changed ?_)
    rintro u rfl
    exact ⟨u.children, { heading := block }, rfl, rfl, rfl⟩
  next => exact EndsIn.changed (fun _ leaf => leaf) h

theorem nodes_add {s : Section} {way : List Nat} (h : IsOpenAt way s) (block : Node) :
    (add (s, way) block).1.nodes = s.nodes ++ [block] := by
  unfold add
  split
  next depth _ => exact nodes_modifyAt (fun t _ => nodes_addChild block t) (h.take (depth - 3))
  next => exact nodes_modifyAt (fun t leaf => nodes_addBlock block leaf) h

theorem nodes_foldl_add (blocks : List Node) {s : Section} {way : List Nat} (h : IsOpenAt way s) :
    (blocks.foldl add (s, way)).1.nodes = s.nodes ++ blocks := by
  induction blocks generalizing s way with
  | nil => simp
  | cons block blocks ih =>
      rw [List.foldl_cons, ih (isOpenAt_add h block), nodes_add h, List.append_assoc, List.singleton_append]

theorem nodes_ofBlocks (heading : Node) (blocks : List Node) : (ofBlocks heading blocks).nodes = heading :: blocks := by
  rw [ofBlocks, nodes_foldl_add blocks (by rfl), nodes_eq]
  simp [nodesAll]

end Section

theorem Release.nodes_ofStretch (index : Nat) (s : Stretch) : (ofStretch index s).body.nodes = s.nodes :=
  Section.nodes_ofBlocks s.heading s.blocks

end Changelog
