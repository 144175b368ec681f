import Changelog.Proofs.Outline.Assembly
import Changelog.Proofs.Paired

/-! # Documents with the same outline

Two documents whose blocks are pairwise alike, in the levels of headings and the keys of definitions, are laid out in
the same way: the parts of one are pairwise alike to the parts of the other.
-/

namespace Changelog

variable {R : Node → Node → Prop}

structure Stretch.Like (R : Node → Node → Prop) (s t : Stretch) : Prop where
  heading : R s.heading t.heading
  blocks : List.Forall₂ R s.blocks t.blocks

structure Layout.Like (R : Node → Node → Prop) (layout other : Layout) : Prop where
  title : Option.Rel R layout.title other.title
  preamble : List.Forall₂ R layout.preamble other.preamble
  releases : List.Forall₂ (Stretch.Like R) layout.releases other.releases

def Definitions.Like (R : Node → Node → Prop) (definitions others : Definitions) : Prop :=
  List.Forall₂ (fun a b => b.1 = a.1 ∧ R a.2 b.2) definitions others

theorem Stretch.exists_like {releases : List Stretch} {nodes : List Node}
    (h : List.Forall₂ R (releases.flatMap Stretch.nodes) nodes) :
    ∃ others : List Stretch, nodes = others.flatMap Stretch.nodes ∧ List.Forall₂ (Stretch.Like R) releases others := by
  induction releases generalizing nodes with
  | nil => exact ⟨[], (List.forall₂_nil_left_iff).mp h, .nil⟩
  | cons s releases ih =>
      obtain ⟨cs, ds, rfl, hcs, hds⟩ := exists_append_of_forall₂ h
      obtain ⟨heading, blocks, hheading, hblocks, rfl⟩ := List.forall₂_cons_left_iff.mp hcs
      obtain ⟨others, rfl, hothers⟩ := ih hds
      exact ⟨⟨heading, blocks⟩ :: others, rfl, .cons ⟨hheading, hblocks⟩ hothers⟩

theorem Layout.exists_like {layout : Layout} {nodes : List Node} (h : List.Forall₂ R layout.nodes nodes) :
    ∃ other : Layout, nodes = other.nodes ∧ layout.Like R other := by
  obtain ⟨front, blocks, rfl, hfront, hreleases⟩ := exists_append_of_forall₂ h
  obtain ⟨title, preamble, rfl, htitle, hpreamble⟩ := exists_append_of_forall₂ hfront
  obtain ⟨releases, rfl, hlike⟩ := Stretch.exists_like hreleases
  obtain ⟨t, rfl, ht⟩ : ∃ t : Option Node, title = t.toList ∧ Option.Rel R layout.title t := by
    cases hsome : layout.title with
    | none =>
        rw [hsome, Option.toList_none, List.forall₂_nil_left_iff] at htitle
        exact ⟨none, htitle, .none⟩
    | some t =>
        rw [hsome, Option.toList_some] at htitle
        obtain ⟨t', rest, ht, hrest, rfl⟩ := List.forall₂_cons_left_iff.mp htitle
        exact ⟨some t', by rw [List.forall₂_nil_left_iff.mp hrest, Option.toList_some], .some ht⟩
  exact ⟨⟨t, preamble, releases⟩, rfl, ht, hpreamble, hlike⟩

theorem Definitions.exists_like {definitions : Definitions} {nodes : List Node}
    (h : List.Forall₂ R (definitions.map (·.2)) nodes) :
    ∃ others : Definitions, nodes = others.map (·.2) ∧ definitions.Like R others := by
  induction definitions generalizing nodes with
  | nil => exact ⟨[], List.forall₂_nil_left_iff.mp h, .nil⟩
  | cons entry definitions ih =>
      obtain ⟨node, rest, hnode, hrest, rfl⟩ := List.forall₂_cons_left_iff.mp h
      obtain ⟨others, rfl, hothers⟩ := ih hrest
      exact ⟨(entry.1, node) :: others, rfl, .cons ⟨rfl, hnode⟩ hothers⟩

section

variable {layout other : Layout} {definitions others : Definitions}

theorem Definitions.Like.keys_eq (h : definitions.Like R others) : others.keys = definitions.keys := by
  induction h with
  | nil => rfl
  | cons hab _ ih => rw [keys_cons, keys_cons, hab.1, ih]

theorem Definitions.Like.exists_find? (h : definitions.Like R others) {key : Text} {a : Node}
    (ha : definitions.find? key = some a) : ∃ b, others.find? key = some b ∧ R a b := by
  induction h with
  | nil => contradiction
  | @cons entry other _ _ hab _ ih =>
      rw [find?_cons] at ha
      simp only [find?_cons, hab.1]
      split at ha
      next hkey =>
        cases ha
        exact ⟨other.2, if_pos hkey, hab.2⟩
      next hkey =>
        obtain ⟨b, hb, hR⟩ := ih ha
        exact ⟨b, by rw [if_neg hkey, hb], hR⟩

theorem Definitions.ext_find? (same : others.keys = definitions.keys) (nodup : definitions.keys.Nodup)
    (h : ∀ key, others.find? key = definitions.find? key) : others = definitions := by
  have found := forall₂_of_find? (P := fun a b => b = a) same nodup fun key a b ha hb => by
    rw [h, ha] at hb
    exact (Option.some.inj hb).symm
  have nodes : others.map (·.2) = definitions.map (·.2) := map_eq_map_of_forall₂ found
  have keys : others.map (·.1) = definitions.map (·.1) := same
  rw [← List.zip_unzip others, ← List.zip_unzip definitions, List.unzip_eq_map, List.unzip_eq_map, keys, nodes]

/-- Definitions that are set again come to stand where definitions with their keys stood. -/
theorem Definitions.Like.addAll_eq (h : definitions.Like R others) (keyed : definitions.IsKeyed) :
    others.addAll (definitions.map (·.2)) = definitions := by
  have known : ∀ node ∈ definitions.map (·.2), ∀ key ∈ node.key?, key ∈ others.keys := by
    refine List.forall_mem_map.mpr fun entry hentry key hkey => ?_
    rw [h.keys_eq]
    rw [keyed.keyed entry hentry] at hkey
    exact Option.mem_some.mp hkey ▸ List.mem_map_of_mem hentry
  refine ext_find? ((keys_addAll_of_known known).trans h.keys_eq) keyed.nodup fun key => ?_
  have last : lastOf key (definitions.map (·.2)) = definitions.find? key := by
    have again : addAll [] (definitions.map (·.2)) = [] ++ definitions := addAll_map_snd keyed
    have found := find?_addAll key (definitions.map (·.2)) []
    rw [again, List.nil_append] at found
    exact (found.trans Option.or_none).symm
  rw [find?_addAll, last]
  cases hfound : definitions.find? key with
  | some node => exact Option.some_or
  | none =>
      rw [Option.none_or, ← Option.not_isSome_iff_eq_none, find?_isSome_iff, h.keys_eq, ← find?_isSome_iff, hfound]
      exact Bool.false_ne_true

variable (hR : ∀ a b, R a b → b.headingDepth? = a.headingDepth? ∧ b.key? = a.key?)

include hR

theorem isNamed_of_like {a b : Node} (h : R a b) : b.isNamed = a.isNamed := by
  rw [Node.isNamed_eq_isSome_key?, Node.isNamed_eq_isSome_key?, (hR a b h).2]

theorem startsRelease_of_like {a b : Node} (h : R a b) : b.startsRelease = a.startsRelease := by
  rw [Node.startsRelease, Node.startsRelease, (hR a b h).1]

theorem Definitions.Like.isKeyed (h : definitions.Like R others) (keyed : definitions.IsKeyed) : others.IsKeyed where
  nodup := by
    rw [h.keys_eq]
    exact keyed.nodup
  keyed := by
    intro b hb
    obtain ⟨a, ha, hkey, hnode⟩ := exists_left_of_forall₂ h hb
    rw [(hR _ _ hnode).2, keyed.keyed a ha, hkey]

theorem Stretch.Like.isWhole {s t : Stretch} (h : s.Like R t) (whole : s.IsWhole) : t.IsWhole := by
  intro b hb
  obtain ⟨a, ha, hab⟩ := exists_left_of_forall₂ h.blocks hb
  rw [startsRelease_of_like hR hab]
  exact whole a ha

theorem Layout.Like.isSound (h : layout.Like R other) (sound : layout.IsSound) : other.IsSound where
  title := by
    intro b hb
    obtain ⟨a, ha, hab⟩ := exists_of_rel h.title hb
    rw [(hR a b hab).1]
    exact sound.title a ha
  preamble := by
    intro b hb
    obtain ⟨a, ha, hab⟩ := exists_left_of_forall₂ h.preamble hb
    rw [(hR a b hab).1]
    exact sound.preamble a ha
  first := by
    intro t ht
    obtain ⟨s, hs, hst⟩ := exists_head?_of_forall₂ h.releases ht
    rw [(hR _ _ hst.heading).1]
    exact sound.first s hs
  later := by
    intro t ht
    rw [← List.drop_one] at ht
    obtain ⟨s, hs, hst⟩ := exists_left_of_forall₂ (List.forall₂_drop 1 h.releases) ht
    rw [List.drop_one] at hs
    rw [startsRelease_of_like hR hst.heading]
    exact sound.later s hs
  whole := by
    intro t ht
    obtain ⟨s, hs, hst⟩ := exists_left_of_forall₂ h.releases ht
    exact hst.isWhole hR (sound.whole s hs)

/-- A document that is alike to one that is put together from sound parts has the outline of alike parts. -/
theorem exists_ofLayout_of_forall₂ (sound : layout.IsSound) (titled : layout.title.isSome)
    (unnamed : ∀ block ∈ layout.nodes, block.isNamed = false) (keyed : definitions.IsKeyed) {nodes : List Node}
    (h : List.Forall₂ R (layout.nodes ++ definitions.map (·.2)) nodes) :
    ∃ other others, nodes = other.nodes ++ others.map (·.2) ∧ layout.Like R other ∧ definitions.Like R others ∧
      Outline.ofNodes nodes = Outline.ofLayout other others := by
  obtain ⟨front, back, rfl, hfront, hback⟩ := exists_append_of_forall₂ h
  obtain ⟨other, rfl, hother⟩ := Layout.exists_like hfront
  obtain ⟨others, rfl, hothers⟩ := Definitions.exists_like hback
  have htitled : other.title.isSome := by
    obtain ⟨t, ht⟩ := Option.isSome_iff_exists.mp titled
    have title := hother.title
    rw [ht] at title
    obtain ⟨t', ht', -⟩ := exists_of_rel_some title
    rw [ht']
    rfl
  have hunnamed : ∀ block ∈ other.nodes, block.isNamed = false := by
    intro b hb
    obtain ⟨a, ha, hab⟩ := exists_left_of_forall₂ hfront hb
    rw [isNamed_of_like hR hab]
    exact unnamed a ha
  exact ⟨other, others, rfl, hother, hothers,
    Outline.ofNodes_nodes (hother.isSound hR sound) htitled hunnamed (hothers.isKeyed hR keyed)⟩

end

end Changelog
