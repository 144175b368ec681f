import Changelog.Proofs.Outline.Parallel

/-! # Sections of parallel blocks

What is put under a heading is nested in the same way as blocks that are pairwise alike: what opens a section and where
it goes can be told from the levels of the headings.
-/

namespace Changelog

namespace Section

variable {R : Node → Node → Prop} {f g : Section → Section} {s t : Section} {a b : Node}

theorem heading_modifyAt (way : List Nat) (hf : ∀ s : Section, (f s).heading = s.heading) (s : Section) :
    (s.modifyAt f way).heading = s.heading := by
  cases way with
  | nil => exact hf s
  | cons step way => rfl

/-- Headings that open sections and are alike. -/
def HeadingLike (R : Node → Node → Prop) (s t : Section) : Prop := s.heading.headingDepth?.isSome ∧ R s.heading t.heading

/-- Sections that hold blocks and headings of sections which are pairwise alike, nested in the same way. -/
inductive Like (R : Node → Node → Prop) : Section → Section → Prop where
  | mk {s t : Section} : List.Forall₂ R s.content t.content → List.Forall₂ (HeadingLike R) s.children t.children →
    List.Forall₂ (Like R) s.children t.children → Like R s t

namespace Like

theorem content (h : Like R s t) : List.Forall₂ R s.content t.content := by
  cases h
  assumption

theorem headings (h : Like R s t) : List.Forall₂ (HeadingLike R) s.children t.children := by
  cases h
  assumption

theorem children (h : Like R s t) : List.Forall₂ (Like R) s.children t.children := by
  cases h
  assumption

theorem isEmpty_eq (h : Like R s t) : t.isEmpty = s.isEmpty := by
  rw [Section.isEmpty, Section.isEmpty, isEmpty_of_forall₂ h.content, isEmpty_of_forall₂ h.children]

theorem ofHeading (a b : Node) : Like R { heading := a } { heading := b } := .mk .nil .nil .nil

theorem addBlock (hab : R a b) (h : Like R s t) : Like R (s.addBlock a) (t.addBlock b) :=
  .mk (List.rel_append h.content (.cons hab .nil)) h.headings h.children

theorem addChild (hdepth : a.headingDepth?.isSome) (hab : R a b) (h : Like R s t) : Like R (s.addChild a) (t.addChild b) :=
  .mk h.content (List.rel_append h.headings (.cons ⟨hdepth, hab⟩ .nil)) (List.rel_append h.children (.cons (ofHeading a b) .nil))

/-- What is changed alike at the end of a way stays alike. -/
theorem modifyAt (way : List Nat) (hf : ∀ s : Section, (f s).heading = s.heading) (hg : ∀ t : Section, (g t).heading = t.heading)
    (hfg : ∀ s t, Like R s t → Like R (f s) (g t)) (h : Like R s t) : Like R (s.modifyAt f way) (t.modifyAt g way) := by
  induction way generalizing s t with
  | nil => exact hfg s t h
  | cons step way ih =>
      refine .mk h.content (forall₂_modify step h.headings fun c d hcd => ?_) (forall₂_modify step h.children fun _ _ => ih)
      rwa [HeadingLike, heading_modifyAt way hf, heading_modifyAt way hg]

theorem at? (way : List Nat) (h : Like R s t) : Option.Rel (Like R) (s.at? way) (t.at? way) := by
  induction way generalizing s t with
  | nil => exact .some h
  | cons step way ih =>
      have hstep := rel_getElem? h.children step
      rw [Section.at?, Section.at?]
      generalize s.children[step]? = child, t.children[step]? = other at hstep
      cases hstep with
      | none => exact .none
      | some hchild => exact ih hchild

theorem length_children_at? (way : List Nat) (h : Like R s t) :
    ((t.at? way).map (·.children.length)).getD 0 = ((s.at? way).map (·.children.length)).getD 0 := by
  have hat := h.at? way
  generalize s.at? way = child, t.at? way = other at hat
  cases hat with
  | none => rfl
  | some hchild => exact hchild.children.length_eq.symm

variable (hR : ∀ a b, R a b → b.headingDepth? = a.headingDepth?)

include hR

theorem add (way : List Nat) (hab : R a b) (h : Like R s t) :
    Like R (Section.add (s, way) a).1 (Section.add (t, way) b).1 ∧
      (Section.add (t, way) b).2 = (Section.add (s, way) a).2 := by
  unfold Section.add
  rw [hR a b hab]
  cases hdepth : a.headingDepth? with
  | none => exact ⟨h.modifyAt way (fun _ => rfl) (fun _ => rfl) fun _ _ hst => hst.addBlock hab, rfl⟩
  | some depth =>
      have opening : a.headingDepth?.isSome := by rw [hdepth]; rfl
      refine ⟨h.modifyAt _ (fun _ => rfl) (fun _ => rfl) fun _ _ hst => hst.addChild opening hab, ?_⟩
      dsimp only
      rw [h.length_children_at?]

/-- The headings above have no part in how blocks are nested. -/
theorem ofBlocks (a b : Node) {xs ys : List Node} (h : List.Forall₂ R xs ys) :
    Like R (Section.ofBlocks a xs) (Section.ofBlocks b ys) := by
  suffices filled : ∀ (s t : Section) way, Like R s t →
      Like R (xs.foldl Section.add (s, way)).1 (ys.foldl Section.add (t, way)).1 from filled _ _ [] (ofHeading a b)
  induction h with
  | nil => exact fun _ _ _ hst => hst
  | @cons x y xs ys hxy _ ih =>
      intro s t way hst
      obtain ⟨hsection, hway⟩ := hst.add hR way hxy
      have place : Section.add (t, way) y = ((Section.add (t, way) y).1, (Section.add (s, way) x).2) := Prod.ext rfl hway
      rw [List.foldl_cons, List.foldl_cons, place]
      exact ih _ _ _ hsection

end Like

end Section

end Changelog
