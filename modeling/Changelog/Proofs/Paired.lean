import Mathlib.Data.List.Forall2

/-! # Lists with items that are pairwise alike

An item of one list has its counterpart in the other one, at the same place, and so have the first and the last item and
every stretch.
-/

namespace Changelog

variable {α β γ : Type} {R : α → β → Prop} {as others : List α} {bs : List β} {a : α} {b : β}

theorem exists_left_of_forall₂ (h : List.Forall₂ R as bs) (hb : b ∈ bs) : ∃ a ∈ as, R a b := by
  induction h with
  | nil => contradiction
  | cons hab _ ih =>
      rcases List.mem_cons.mp hb with rfl | hb
      · exact ⟨_, List.mem_cons_self, hab⟩
      · obtain ⟨a, ha, hab⟩ := ih hb
        exact ⟨a, List.mem_cons_of_mem _ ha, hab⟩

theorem isEmpty_of_forall₂ (h : List.Forall₂ R as bs) : bs.isEmpty = as.isEmpty := by
  cases h <;> rfl

theorem exists_head?_of_forall₂ (h : List.Forall₂ R as bs) (hb : b ∈ bs.head?) : ∃ a ∈ as.head?, R a b := by
  cases h with
  | nil => contradiction
  | cons hab _ =>
      cases hb
      exact ⟨_, rfl, hab⟩

theorem exists_getLast?_of_forall₂ (h : List.Forall₂ R as bs) (hb : b ∈ bs.getLast?) : ∃ a ∈ as.getLast?, R a b := by
  rw [List.getLast?_eq_head?_reverse] at hb ⊢
  exact exists_head?_of_forall₂ (List.rel_reverse h) hb

theorem exists_append_of_forall₂ (h : List.Forall₂ R (as ++ others) bs) :
    ∃ cs ds, bs = cs ++ ds ∧ List.Forall₂ R as cs ∧ List.Forall₂ R others ds := by
  induction as generalizing bs with
  | nil => exact ⟨[], bs, rfl, .nil, h⟩
  | cons a as ih =>
      obtain ⟨b, bs, hab, hrest, rfl⟩ := List.forall₂_cons_left_iff.mp h
      obtain ⟨cs, ds, rfl, hcs, hds⟩ := ih hrest
      exact ⟨b :: cs, ds, rfl, .cons hab hcs, hds⟩

theorem map_eq_map_of_forall₂ {f : α → γ} {g : β → γ} (h : List.Forall₂ (fun a b => g b = f a) as bs) :
    bs.map g = as.map f := by
  induction h with
  | nil => rfl
  | cons hab _ ih => rw [List.map_cons, List.map_cons, hab, ih]

theorem filterMap_eq_of_map_eq {f : α → Option γ} {g : β → Option γ} (h : bs.map g = as.map f) :
    bs.filterMap g = as.filterMap f := by
  have := congrArg (List.filterMap id) h
  rwa [List.filterMap_map, List.filterMap_map, Function.id_comp, Function.id_comp] at this

theorem forall₂_mapIdx {S : α → γ → Prop} {f : Nat → β → γ} (h : List.Forall₂ R as bs)
    (hf : ∀ a b i, R a b → S a (f i b)) : List.Forall₂ S as (bs.mapIdx f) := by
  induction h generalizing f with
  | nil => exact .nil
  | cons hab _ ih =>
      rw [List.mapIdx_cons]
      exact .cons (hf _ _ 0 hab) (ih fun a b i => hf a b (i + 1))

theorem forall₂_modify {f : α → α} {g : β → β} (step : Nat) (h : List.Forall₂ R as bs)
    (hfg : ∀ a b, R a b → R (f a) (g b)) : List.Forall₂ R (as.modify step f) (bs.modify step g) := by
  induction h generalizing step with
  | nil => cases step <;> exact .nil
  | cons hab hrest ih =>
      cases step with
      | zero => exact .cons (hfg _ _ hab) hrest
      | succ step => exact .cons hab (ih step)

theorem rel_getElem? (h : List.Forall₂ R as bs) (i : Nat) : Option.Rel R as[i]? bs[i]? := by
  induction h generalizing i with
  | nil => exact .none
  | cons hab _ ih =>
      cases i with
      | zero => exact .some hab
      | succ i => exact ih i

/-! ## Optional items -/

theorem exists_of_rel {a? : Option α} {b? : Option β} (h : Option.Rel R a? b?) (hb : b ∈ b?) : ∃ a ∈ a?, R a b := by
  cases h with
  | none => contradiction
  | some hab =>
      cases hb
      exact ⟨_, rfl, hab⟩

theorem exists_of_rel_some {b? : Option β} (h : Option.Rel R (some a) b?) : ∃ b, b? = some b ∧ R a b := by
  cases h with
  | some hab => exact ⟨_, rfl, hab⟩

theorem mapM_eq_ok_iff {ε α β : Type} {f : α → Except ε β} {xs : List α} {ys : List β} :
    xs.mapM f = .ok ys ↔ List.Forall₂ (fun x y => f x = .ok y) xs ys := by
  induction xs generalizing ys with
  | nil =>
      rw [List.mapM_nil, List.forall₂_nil_left_iff]
      exact ⟨fun h => (Except.ok.inj h).symm, fun h => h ▸ rfl⟩
  | cons x xs ih =>
      rw [List.mapM_cons]
      cases hx : f x with
      | error fault =>
          refine ⟨nofun, fun h => ?_⟩
          cases h with
          | cons hy _ => rw [hx] at hy; contradiction
      | ok y =>
          cases hxs : xs.mapM f with
          | error fault =>
              refine ⟨nofun, fun h => ?_⟩
              cases h with
              | cons _ h => rw [ih.mpr h] at hxs; contradiction
          | ok rest =>
              constructor
              · intro h
                obtain rfl : y :: rest = ys := Except.ok.inj h
                exact .cons hx (ih.mp hxs)
              · intro h
                cases h with
                | cons hy h =>
                    obtain rfl := Except.ok.inj (hx.symm.trans hy)
                    obtain rfl := Except.ok.inj (hxs.symm.trans (ih.mpr h))
                    rfl

end Changelog
