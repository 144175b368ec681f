import Changelog.Proofs.Outline.Extent

/-! # Where headings open sections

One recurrence says where a heading opens a section: one level below the section at the cursor, or as deep as the heading
itself if that is less, but never above the level of releases. The new section goes to the end of the section that stands
one level higher on the way to the cursor, and nothing else changes. So the releases of a document and the groups of a
release can be told from the depths of its headings.
-/

namespace Changelog

namespace Cursor

/-- The place on the way to a cursor that has the given level. -/
def upTo (level : Nat) : Cursor → Cursor
  | root => root
  | inside index way => if level ≤ 1 then root else inside index (way.take (level - 2))

def below (place : Nat) : Cursor → Cursor
  | root => inside place []
  | inside index way => inside index (way ++ [place])

theorem upTo_one (cursor : Cursor) : cursor.upTo 1 = root := by
  cases cursor <;> rfl

end Cursor

namespace Section

mutual

/-- The headings of a section of the given level and of all sections in it, as they are written, with their levels. -/
def leveled (level : Nat) : Section → List (Nat × Node)
  | { heading, children, .. } => (level, heading) :: leveledAll (level + 1) children

def leveledAll (level : Nat) : List Section → List (Nat × Node)
  | [] => []
  | s :: rest => s.leveled level ++ leveledAll level rest

end

variable {level : Nat} {s : Section} {way : List Nat} {f : Section → Section}

theorem leveled_eq (level : Nat) (s : Section) :
    s.leveled level = (level, s.heading) :: leveledAll (level + 1) s.children := by
  cases s
  rw [leveled]

theorem leveledAll_append (level : Nat) (xs ys : List Section) :
    leveledAll level (xs ++ ys) = leveledAll level xs ++ leveledAll level ys := by
  induction xs with
  | nil => rfl
  | cons x xs ih => simp only [List.cons_append, leveledAll, ih, List.append_assoc]

theorem leveled_addChild (level : Nat) (heading : Node) (s : Section) :
    (s.addChild heading).leveled level = s.leveled level ++ [(level + 1, heading)] := by
  rw [leveled_eq, leveled_eq, addChild, append, leveledAll_append]
  simp [leveledAll, leveled_eq]

theorem leveled_modifyAt {p : Section → Prop} {extra : List (Nat × Node)}
    (hf : ∀ t : Section, (f t).leveled (level + way.length) = t.leveled (level + way.length) ++ extra)
    (ends : EndsIn p way s) : (s.modifyAt f way).leveled level = s.leveled level ++ extra := by
  induction way generalizing level s with
  | nil => exact hf s
  | cons step way ih =>
      obtain ⟨init, last, hs, rfl, ends⟩ := ends
      have deeper : (last.modifyAt f way).leveled (level + 1) = last.leveled (level + 1) ++ extra := by
        refine ih (fun t => ?_) ends
        rw [Nat.add_right_comm]
        exact hf t
      rw [leveled_eq, EndsIn.children_modifyAt hs, leveled_eq level s, hs, leveledAll_append, leveledAll_append]
      simp [leveledAll, deeper, modifyAt]

theorem at?_modifyAt (way : List Nat) (s : Section) : (s.modifyAt f way).at? way = (s.at? way).map f := by
  induction way generalizing s with
  | nil => rfl
  | cons step way ih =>
      rw [at?, at?, modifyAt]
      simp only [List.getElem?_modify_eq]
      cases s.children[step]? with
      | none => rfl
      | some child => exact ih child

end Section

namespace Outline

def childrenAt (o : Outline) : Cursor → List Section
  | .root => o.releases.map (·.body)
  | cursor => ((o.section? cursor).map (·.children)).getD []

/-- The headings of all sections of an outline, as they are written, with their levels. -/
def leveled (o : Outline) : List (Nat × Node) := Section.leveledAll 2 (o.releases.map (·.body))

/-- Does a cursor lead to the last section of the last section and so on, up to one that has no sections of its own? -/
def IsAtEnd (o : Outline) : Cursor → Prop
  | .root => o.releases = []
  | .inside index way =>
    ∃ r, o.release? index = some r ∧ o.releases.getLast? = some r ∧ Section.IsOpenAt way r.body

/-- The level on which a heading opens a section when the cursor is at a section of the given level. -/
def nextLevel (level depth : Nat) : Nat := max 2 (min (level + 1) depth)

/-- Does a heading open a section of the given level where it is added? It stands at the end of the section one level
    higher on the way to the old cursor, the new cursor leads to it, and the sections that were there stay as they are. -/
structure Opens (heading : Node) (level : Nat) (place next : Outline × Cursor) : Prop where
  depth : next.2.depth = level
  above : (place.2.upTo (level - 1)).depth + 1 = level
  last : next.1.childrenAt (place.2.upTo (level - 1)) =
    place.1.childrenAt (place.2.upTo (level - 1)) ++ [{ heading := heading }]
  cursor : next.2 = (place.2.upTo (level - 1)).below (place.1.childrenAt (place.2.upTo (level - 1))).length
  others : next.1.leveled = place.1.leveled ++ [(level, heading)]

/-! ## One block after the other -/

/-- The places to which adding blocks leads: the start, before any release, and the end of the last section of the last
    release, where the releases are numbered in their order. -/
inductive IsReached : Outline × Cursor → Prop where
  | root {o : Outline} : o.releases = [] → IsReached (o, .root)
  | inside {o : Outline} {earlier : List Release} {r : Release} {way : List Nat} : r.index = earlier.length →
    (∀ x ∈ earlier, x.index < earlier.length) → Section.IsOpenAt way r.body →
    IsReached ({ o with releases := earlier ++ [r] }, .inside earlier.length way)

variable {place : Outline × Cursor} {block : Node} {depth : Nat}

theorem add_root_untitled {o : Outline} (hd : block.headingDepth? = some depth) (untitled : o.takesTitle depth = false) :
    o.add .root block = (o.addRelease block, .inside o.releases.length []) := by
  simp [add, hd, Cursor.climb, openAt, untitled]

namespace IsReached

theorem isAtEnd (h : IsReached place) : place.1.IsAtEnd place.2 := by
  cases h with
  | root empty => exact empty
  | inside hr hearlier opens => exact ⟨_, release?_last hr hearlier, List.getLast?_concat, opens⟩

theorem addRelease (o : Outline) (numbered : ∀ x ∈ o.releases, x.index < o.releases.length) (heading : Node) :
    IsReached (o.addRelease heading, .inside o.releases.length []) :=
  @IsReached.inside o o.releases (Release.ofHeading o.releases.length heading) [] rfl numbered rfl

theorem add (h : IsReached place) (block : Node) : IsReached (place.1.add place.2 block) := by
  by_cases named : block.isNamed
  · rw [add_named _ _ named]
    cases h with
    | root empty => exact .root empty
    | @inside o earlier r way hr hearlier opens =>
        exact .inside (o := { o with definitions := o.definitions.add block }) hr hearlier opens
  · have unnamed : block.isNamed = false := by simpa using named
    cases h with
    | @root o empty =>
        cases hd : block.headingDepth? with
        | none =>
            rw [add_root_plain o unnamed hd]
            exact .root empty
        | some depth =>
            cases title : o.takesTitle depth with
            | true =>
                have taken : o.add .root block = ({ o with heading := some block }, .root) := by
                  simp [Outline.add, hd, Cursor.climb, openAt, title]
                rw [taken]
                exact .root empty
            | false =>
                rw [add_root_untitled hd title]
                exact .addRelease o (by simp [empty]) block
    | @inside o earlier r way hr hearlier opens =>
        cases starts : block.startsRelease with
        | false =>
            rw [add_inside hr hearlier way unnamed starts]
            exact .inside hr hearlier (Section.isOpenAt_add opens block)
        | true =>
            rw [add_startsRelease _ (by simp) _ _ starts]
            exact .addRelease _ (index_lt_concat hr hearlier) block

theorem addAll (h : IsReached place) (blocks : List Node) : IsReached (Outline.addAll place blocks) := by
  induction blocks generalizing place with
  | nil => exact h
  | cons block blocks ih => exact ih (h.add block)

end IsReached

theorem opens_addRelease (o : Outline) (cursor : Cursor) (heading : Node) :
    Opens heading 2 (o, cursor) (o.addRelease heading, .inside o.releases.length []) where
  depth := rfl
  above := by rw [Cursor.upTo_one]; rfl
  last := by simp [Cursor.upTo_one, childrenAt, addRelease, Release.ofHeading]
  cursor := by simp [Cursor.upTo_one, childrenAt, Cursor.below]
  others := by
    simp [leveled, addRelease, Release.ofHeading, Section.leveledAll_append, Section.leveledAll, Section.leveled_eq]

section

variable {o : Outline} {earlier : List Release} {r : Release} {way : List Nat}

theorem childrenAt_last (hr : r.index = earlier.length) (hearlier : ∀ x ∈ earlier, x.index < earlier.length)
    (way : List Nat) : childrenAt { o with releases := earlier ++ [r] } (.inside earlier.length way) =
      ((r.body.at? way).map (·.children)).getD [] := by
  rw [childrenAt, section?, release?_last hr hearlier]
  · rfl
  · simp

/-- A heading that goes on with the last release comes under a section on the way to its end. -/
theorem opens_addChild (hr : r.index = earlier.length) (hearlier : ∀ x ∈ earlier, x.index < earlier.length)
    (opens : Section.IsOpenAt way r.body) (n : Nat) (heading : Node) :
    Opens heading ((way.take n).length + 3) ({ o with releases := earlier ++ [r] }, .inside earlier.length way)
      ({ o with releases := earlier ++ [{ r with body := r.body.modifyAt (Section.addChild heading) (way.take n) }] },
        .inside earlier.length (way.take n ++ [((r.body.at? (way.take n)).map (·.children.length)).getD 0])) := by
  obtain ⟨t, ht, -⟩ := (opens.take n).exists_at
  have parent : (Cursor.inside earlier.length way).upTo ((way.take n).length + 3 - 1) =
      .inside earlier.length (way.take n) := by
    rw [Cursor.upTo, if_neg (by omega)]
    congr 1
    rw [List.take_eq_take_iff, List.length_take]
    omega
  have changed := childrenAt_last (o := o) (r := { r with body := r.body.modifyAt (Section.addChild heading) (way.take n) })
    hr hearlier (way.take n)
  have grown : (r.body.modifyAt (Section.addChild heading) (way.take n)).leveled 2 =
      r.body.leveled 2 ++ [((way.take n).length + 3, heading)] := by
    refine Section.leveled_modifyAt (fun t => ?_) (opens.take n)
    rw [Section.leveled_addChild, Nat.add_comm 2]
  exact {
    depth := by simp only [Cursor.depth, List.length_append, List.length_singleton]
    above := by
      rw [parent]
      rfl
    last := by
      rw [parent, changed, childrenAt_last hr hearlier, Section.at?_modifyAt, ht]
      rfl
    cursor := by
      rw [parent, childrenAt_last hr hearlier, ht]
      rfl
    others := by
      simp only [leveled, List.map_append, List.map_singleton, Section.leveledAll_append, Section.leveledAll, grown,
        List.append_nil, List.append_assoc] }

end

theorem IsReached.opens (h : IsReached place) (hd : block.headingDepth? = some depth)
    (untitled : place.1.takesTitle depth = false) :
    Opens block (nextLevel place.2.depth depth) place (place.1.add place.2 block) := by
  cases h with
  | @root o empty =>
      have level : nextLevel Cursor.root.depth depth = 2 := by
        simp only [nextLevel, Cursor.depth]
        omega
      rw [level, add_root_untitled hd untitled]
      exact opens_addRelease o .root block
  | @inside o earlier r way hr hearlier opens =>
      cases starts : block.startsRelease with
      | true =>
          have shallow : depth ≤ 2 := by simpa [Node.startsRelease, hd] using starts
          have level : nextLevel (Cursor.inside earlier.length way).depth depth = 2 := by
            rw [nextLevel]
            omega
          rw [level, add_startsRelease _ (by simp) _ _ starts]
          exact opens_addRelease _ _ block
      | false =>
          have deep : 2 < depth := by simpa [Node.startsRelease, hd] using starts
          have unnamed : block.isNamed = false := Node.isNamed_of_headingDepth?_isSome (by rw [hd]; rfl)
          have level : nextLevel (Cursor.inside earlier.length way).depth depth = (way.take (depth - 3)).length + 3 := by
            simp only [nextLevel, Cursor.depth, List.length_take]
            omega
          have added := add_inside (o := o) hr hearlier way unnamed starts
          simp only [Section.add, hd] at added
          rw [level, added]
          exact opens_addChild hr hearlier opens (depth - 3) block

end Outline

end Changelog
