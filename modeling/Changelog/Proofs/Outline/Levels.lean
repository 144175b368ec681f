import Changelog.Proofs.Outline.Nesting

/-! # Levels of sections

The level of a section is its depth in the outline, which counts how far it is nested and not how deep its heading is. A
section holds headings that are deeper than its level only. The first of them begins its first subsection, however deep
it is, and every other subsection begins with a heading just one level deeper. So a section goes on up to the next
heading that is no deeper than its level.
-/

namespace Changelog

/-- Do headings begin the subsections of a section of the given level? The first has to be deeper than the level, the
    others just one level deeper. -/
def BeginSubsections (level : Nat) : List Node → Prop
  | [] => True
  | first :: later => (∃ depth ∈ first.headingDepth?, level < depth) ∧
      ∀ heading ∈ later, heading.headingDepth? = some (level + 1)

namespace BeginSubsections

variable {level depth : Nat} {headings : List Node} {heading : Node}

theorem deeper (h : BeginSubsections level headings) (hmem : heading ∈ headings) :
    ∃ depth ∈ heading.headingDepth?, level < depth := by
  cases headings with
  | nil => contradiction
  | cons first later =>
      rcases List.mem_cons.mp hmem with rfl | hlater
      · exact h.1
      · exact ⟨level + 1, h.2 heading hlater, Nat.lt_succ_self level⟩

theorem later {front rest : List Node} {next : Node} (h : BeginSubsections level (front ++ heading :: next :: rest)) :
    next.headingDepth? = some (level + 1) := by
  cases front with
  | nil => exact h.2 next List.mem_cons_self
  | cons first front => exact h.2 next (by simp)

theorem append (h : BeginSubsections level headings) (hd : heading.headingDepth? = some depth) (deeper : level < depth)
    (place : headings = [] ∨ depth = level + 1) : BeginSubsections level (headings ++ [heading]) := by
  cases headings with
  | nil => exact ⟨⟨depth, hd, deeper⟩, List.forall_mem_nil _⟩
  | cons first later =>
      obtain rfl := place.resolve_left (List.cons_ne_nil first later)
      refine ⟨h.1, List.forall_mem_append.mpr ⟨h.2, ?_⟩⟩
      simpa using hd

end BeginSubsections

namespace Section

/-- What stands under the heading of a section, as it is written. -/
def inner (s : Section) : List Node := s.content ++ nodesAll s.children

theorem nodes_eq_cons_inner (s : Section) : s.nodes = s.heading :: s.inner := nodes_eq s

/-- Is a section of the given level graded by its headings? Its subsections begin with headings that are deeper, no other
    heading stands in front of them, and they are graded in the same way. -/
inductive IsGraded : Nat → Section → Prop where
  | mk {level : Nat} {s : Section} : (∀ block ∈ s.content, block.headingDepth? = none) →
    BeginSubsections level (s.children.map (·.heading)) → (∀ child ∈ s.children, IsGraded (level + 1) child) →
    IsGraded level s

variable {level : Nat} {s t : Section} {way : List Nat} {block : Node} {p : Section → Prop} {f : Section → Section}

namespace IsGraded

theorem content (h : IsGraded level s) : ∀ block ∈ s.content, block.headingDepth? = none := by
  cases h
  assumption

theorem headings (h : IsGraded level s) : BeginSubsections level (s.children.map (·.heading)) := by
  cases h
  assumption

theorem children (h : IsGraded level s) : ∀ child ∈ s.children, IsGraded (level + 1) child := by
  cases h
  assumption

theorem deeper (h : IsGraded level s) : ∀ block ∈ s.inner, ∀ depth ∈ block.headingDepth?, level < depth := by
  induction h with
  | @mk level s content headings _ ih =>
      intro block hblock depth hdepth
      rcases List.mem_append.mp hblock with hcontent | hchildren
      · rw [content block hcontent] at hdepth
        contradiction
      · obtain ⟨child, hchild, hblock⟩ := mem_nodesAll.mp hchildren
        rw [nodes_eq_cons_inner] at hblock
        rcases List.mem_cons.mp hblock with rfl | hinner
        · obtain ⟨_, same, deeper⟩ := headings.deeper (List.mem_map_of_mem hchild)
          rwa [Option.mem_unique hdepth same]
        · exact Nat.lt_of_succ_lt (ih child hchild block hinner depth hdepth)

/-! ## Filling a section -/

theorem ofHeading (level : Nat) (heading : Node) : IsGraded level { heading } :=
  .mk (List.forall_mem_nil _) trivial (List.forall_mem_nil _)

theorem addBlock (h : IsGraded level s) (plain : block.headingDepth? = none) : IsGraded level (s.addBlock block) :=
  .mk (List.forall_mem_append.mpr ⟨h.content, by simpa using plain⟩) h.headings h.children

theorem addChild (h : IsGraded level s) {depth : Nat} (hd : block.headingDepth? = some depth) (deeper : level < depth)
    (place : s.children = [] ∨ depth = level + 1) : IsGraded level (s.addChild block) := by
  refine .mk h.content ?_ (List.forall_mem_append.mpr ⟨h.children, by simpa using ofHeading (level + 1) block⟩)
  rw [Section.addChild, append, List.map_append]
  exact h.headings.append hd deeper (place.imp_left fun empty => by rw [empty, List.map_nil])

theorem modifyAt (ends : EndsIn p way s) (same : ∀ t : Section, (f t).heading = t.heading)
    (hf : ∀ t, p t → IsGraded (level + way.length) t → IsGraded (level + way.length) (f t)) (h : IsGraded level s) :
    IsGraded level (s.modifyAt f way) := by
  induction way generalizing level s with
  | nil => exact hf s ends h
  | cons step way ih =>
      obtain ⟨init, last, hs, rfl, ends⟩ := ends
      obtain ⟨earlier, hlast⟩ := List.forall_mem_append.mp (hs ▸ h.children)
      have changed : IsGraded (level + 1) (last.modifyAt f way) := by
        refine ih ends (fun t ht graded => ?_) (hlast last List.mem_cons_self)
        rw [Nat.add_right_comm] at graded ⊢
        exact hf t ht graded
      refine .mk h.content ?_ ?_
      · rw [EndsIn.children_modifyAt hs, List.map_append, List.map_singleton, heading_modifyAt way same,
          ← List.map_singleton, ← List.map_append, ← hs]
        exact h.headings
      · rw [EndsIn.children_modifyAt hs]
        exact List.forall_mem_append.mpr ⟨earlier, by simpa using changed⟩

end IsGraded

/-- A way to the end of a section goes through the section at the end of each of its beginnings. -/
theorem EndsIn.split (n : Nat) (ends : EndsIn p way s) : EndsIn (EndsIn p (way.drop n)) (way.take n) s := by
  induction way generalizing s n with
  | nil =>
      rw [List.take_nil, List.drop_nil]
      exact ends
  | cons step way ih =>
      cases n with
      | zero => exact ends
      | succ n =>
          obtain ⟨init, last, hs, hstep, ends⟩ := ends
          exact ⟨init, last, hs, hstep, ih n ends⟩

/-- A heading goes under the section on the way that is one level above it, or under the last one of the way if that is
    not so deep; nothing was opened there yet. -/
theorem IsGraded.add (h : IsGraded 2 s) (opens : IsOpenAt way s) (inside : block.startsRelease = false) :
    IsGraded 2 (Section.add (s, way) block).1 := by
  unfold Section.add
  split
  next depth hd =>
    have deep : 2 < depth := by simpa [Node.startsRelease, hd] using inside
    dsimp only
    refine h.modifyAt (opens.split (depth - 3)) (fun _ => rfl) fun t rest graded => ?_
    have length : (way.take (depth - 3)).length = min (depth - 3) way.length := List.length_take
    refine graded.addChild hd (by omega) ?_
    by_cases short : way.length ≤ depth - 3
    · rw [List.drop_eq_nil_of_le short] at rest
      exact Or.inl rest
    · exact Or.inr (by omega)
  next hd => exact h.modifyAt opens (fun _ => rfl) fun _ _ graded => graded.addBlock hd

theorem isGraded_ofBlocks {blocks : List Node} (inside : ∀ block ∈ blocks, block.startsRelease = false)
    (heading : Node) : IsGraded 2 (ofBlocks heading blocks) := by
  suffices filled : ∀ (s : Section) way, IsOpenAt way s → IsGraded 2 s →
      IsGraded 2 (blocks.foldl Section.add (s, way)).1 from filled { heading } [] rfl (.ofHeading 2 heading)
  induction blocks with
  | nil => exact fun _ _ _ h => h
  | cons block blocks ih =>
      intro s way opens h
      obtain ⟨first, rest⟩ := List.forall_mem_cons.mp inside
      exact ih rest _ _ (isOpenAt_add opens block) (h.add opens first)

/-! ## Where a section ends -/

/-- What is written behind a section begins with a heading that is no deeper than the level of the section. -/
def EndsAt (level : Nat) (after : List Node) : Prop :=
  ∀ next ∈ after.head?, ∃ depth ∈ next.headingDepth?, depth ≤ level

theorem EndsAt.nil : EndsAt level [] := by
  simp [EndsAt]

theorem EndsAt.append {after rest : List Node} {outer : Nat} (h : EndsAt level after) (hrest : EndsAt outer rest)
    (le : outer ≤ level) : EndsAt level (after ++ rest) := by
  cases after with
  | nil =>
      intro next hnext
      obtain ⟨depth, hd, hle⟩ := hrest next hnext
      exact ⟨depth, hd, Nat.le_trans hle le⟩
  | cons first others => exact h

/-- A section at the end of a way is written in one piece, up to a heading that is no deeper than its level. Its own
    heading is as deep as its level at least. -/
theorem IsGraded.at? (h : IsGraded level s) (hat : s.at? way = some t) : IsGraded (level + way.length) t ∧
    (way ≠ [] → ∃ depth ∈ t.heading.headingDepth?, level + way.length ≤ depth) ∧
    ∃ before after, s.nodes = before ++ t.nodes ++ after ∧ EndsAt (level + way.length) after := by
  induction way generalizing level s with
  | nil =>
      obtain rfl := Option.some.inj hat
      exact ⟨h, fun inner => absurd rfl inner, [], [], by simp, .nil⟩
  | cons step way ih =>
      obtain ⟨child, hstep, hat⟩ := Option.bind_eq_some_iff.mp hat
      have hchild : child ∈ s.children := List.mem_of_getElem? hstep
      obtain ⟨front, rest, hs⟩ := List.append_of_mem hchild
      have hadd : level + (step :: way).length = level + 1 + way.length := by
        rw [List.length_cons, Nat.add_right_comm, Nat.add_assoc]
      obtain ⟨graded, deep, before, after, hnodes, hafter⟩ := ih (h.children child hchild) hat
      rw [hadd]
      refine ⟨graded, fun _ => ?_, s.heading :: s.content ++ nodesAll front ++ before, after ++ nodesAll rest, ?_,
        hafter.append ?_ (Nat.le_add_right (level + 1) way.length)⟩
      · cases way with
        | nil =>
            obtain rfl := Option.some.inj hat
            exact h.headings.deeper (List.mem_map_of_mem hchild)
        | cons next way => exact deep (List.cons_ne_nil next way)
      · rw [nodes_eq s, hs, nodesAll_append, nodesAll, hnodes]
        simp
      · cases rest with
        | nil => exact .nil
        | cons next others =>
            have headings := h.headings
            rw [hs, List.map_append] at headings
            rw [nodesAll, nodes_eq_cons_inner]
            rintro _ ⟨⟩
            exact ⟨level + 1, headings.later, Nat.le_refl _⟩

end Section

end Changelog
