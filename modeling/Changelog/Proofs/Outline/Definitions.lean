import Changelog.Proofs.Outline.Layout
import Mathlib.Data.List.Forall2

/-! # Definitions by their keys

The definitions of an outline are kept under the lower-case forms of their identifiers, one under each. Such a
collection is determined by its nodes: adding them to nothing one after the other gives it back.
-/

namespace Changelog

/-- The key under which a definition is kept. -/
def Node.key? (node : Node) : Option Text :=
  if node.kind = .definition then node.identifier.map Text.lowercase else none

theorem Node.isNamed_eq_isSome_key? (node : Node) : node.isNamed = node.key?.isSome := by
  unfold isNamed key?
  by_cases h : node.kind = .definition <;> simp [h]

namespace Definitions

def keys (definitions : Definitions) : List Text := definitions.map (·.1)

@[simp] theorem keys_cons (entry : Text × Node) (rest : Definitions) : keys (entry :: rest) = entry.1 :: keys rest := rfl

/-- Every node is kept under its own key, and no two under the same. -/
structure IsKeyed (definitions : Definitions) : Prop where
  nodup : definitions.keys.Nodup
  keyed : ∀ entry ∈ definitions, entry.2.key? = some entry.1

/-- The last of some blocks that is kept under a key. -/
def lastOf (key : Text) (blocks : List Node) : Option Node := (blocks.filter fun n => n.key? = some key).getLast?

variable {definitions : Definitions} {key : Text} {node : Node}

theorem find?_cons (entry : Text × Node) (rest : Definitions) :
    find? key (entry :: rest) = if entry.1 = key then some entry.2 else find? key rest := by
  by_cases h : entry.1 = key <;> simp [find?, h]

theorem find?_insert (key identifier : Text) (node : Node) (definitions : Definitions) :
    (definitions.insert identifier node).find? key =
      if key = identifier then some node else definitions.find? key := by
  induction definitions with
  | nil => simp [insert, eq_comm, find?]
  | cons entry rest ih =>
      unfold insert
      split
      · grind [find?_cons]
      · grind [find?_cons]

theorem keys_insert (identifier : Text) (node : Node) (definitions : Definitions) :
    (definitions.insert identifier node).keys =
      if identifier ∈ definitions.keys then definitions.keys else definitions.keys ++ [identifier] := by
  induction definitions with
  | nil => rfl
  | cons entry rest ih =>
      unfold insert
      split
      next h => simp [h]
      next h =>
        simp only [keys_cons, List.mem_cons, Ne.symm h, false_or, ih]
        split <;> rfl

theorem insert_of_not_mem (h : key ∉ definitions.keys) : definitions.insert key node = definitions ++ [(key, node)] := by
  induction definitions with
  | nil => rfl
  | cons entry rest ih =>
      simp only [keys_cons, List.mem_cons, not_or] at h
      simp [insert, Ne.symm h.1, ih h.2]

theorem mem_insert {entry : Text × Node} (h : entry ∈ definitions.insert key node) :
    entry = (key, node) ∨ entry ∈ definitions := by
  induction definitions with
  | nil => exact Or.inl (List.mem_singleton.mp h)
  | cons first rest ih =>
      unfold insert at h
      split at h
      next hfirst =>
        rcases List.mem_cons.mp h with h | h
        · exact Or.inl (hfirst ▸ h)
        · exact Or.inr (List.mem_cons_of_mem first h)
      next =>
        rcases List.mem_cons.mp h with h | h
        · exact Or.inr (h ▸ List.mem_cons_self)
        · exact (ih h).imp_right (List.mem_cons_of_mem first)

theorem find?_eq_some_iff (h : definitions.keys.Nodup) :
    definitions.find? key = some node ↔ (key, node) ∈ definitions := by
  induction definitions with
  | nil => simp [find?]
  | cons entry rest ih =>
      obtain ⟨first, other⟩ := entry
      simp only [keys_cons, List.nodup_cons] at h
      rw [find?_cons, List.mem_cons]
      by_cases hkey : first = key
      · subst hkey
        have absent : (first, node) ∉ rest := fun hmem => h.1 (List.mem_map_of_mem (f := (·.1)) hmem)
        simp [absent, eq_comm]
      · simp only [hkey, if_false, ih h.2, Prod.mk.injEq, Ne.symm hkey, false_and, false_or]

theorem find?_perm {other : Definitions} (h : definitions.keys.Nodup) (hperm : definitions.Perm other) :
    definitions.find? key = other.find? key := by
  have hother : other.keys.Nodup := (hperm.map _).nodup_iff.mp h
  ext node
  rw [find?_eq_some_iff h, find?_eq_some_iff hother, hperm.mem_iff]

theorem find?_isSome_iff : (definitions.find? key).isSome ↔ key ∈ definitions.keys := by
  induction definitions with
  | nil => simp [find?, keys]
  | cons entry rest ih =>
      rw [find?_cons]
      by_cases hkey : entry.1 = key
      · simp [hkey]
      · simpa [hkey, Ne.symm hkey] using ih

namespace IsKeyed

theorem nil : IsKeyed [] where
  nodup := List.nodup_nil
  keyed _ h := nomatch h

theorem insert (h : IsKeyed definitions) (hkey : node.key? = some key) : IsKeyed (definitions.insert key node) where
  nodup := by
    rw [keys_insert]
    split
    next => exact h.nodup
    next absent => exact List.nodup_append.mpr ⟨h.nodup, by simp, by
      rintro a ha b hb rfl
      exact absent (List.mem_singleton.mp hb ▸ ha)⟩
  keyed entry hentry := by
    rcases mem_insert hentry with rfl | hentry
    · exact hkey
    · exact h.keyed entry hentry

theorem perm {other : Definitions} (h : IsKeyed definitions) (hperm : other.Perm definitions) : IsKeyed other where
  nodup := (hperm.map _).nodup_iff.mpr h.nodup
  keyed entry hentry := h.keyed entry (hperm.mem_iff.mp hentry)

theorem isNamed (h : IsKeyed definitions) {block : Node} (hblock : block ∈ definitions.map (·.2)) : block.isNamed := by
  obtain ⟨entry, hentry, rfl⟩ := List.mem_map.mp hblock
  rw [Node.isNamed_eq_isSome_key?, h.keyed entry hentry]
  rfl

end IsKeyed

/-! ## Adding definitions -/

theorem add_eq_insert (definitions : Definitions) (hkey : node.key? = some key) :
    definitions.add node = definitions.insert key node := by
  unfold Node.key? at hkey
  split at hkey
  · obtain ⟨identifier, hid, rfl⟩ := Option.map_eq_some_iff.mp hkey
    simp [add, hid]
  · contradiction

theorem addAll_cons (definitions : Definitions) (block : Node) (blocks : List Node) :
    definitions.addAll (block :: blocks) =
      if block.isNamed then (definitions.add block).addAll blocks else definitions.addAll blocks := by
  by_cases h : block.isNamed <;> simp [addAll, h]

theorem exists_key?_of_isNamed {block : Node} (h : block.isNamed) : ∃ key, block.key? = some key :=
  Option.isSome_iff_exists.mp (by rwa [← Node.isNamed_eq_isSome_key?])

theorem isKeyed_addAll (blocks : List Node) (h : IsKeyed definitions) : IsKeyed (definitions.addAll blocks) := by
  induction blocks generalizing definitions with
  | nil => exact h
  | cons block blocks ih =>
      rw [addAll_cons]
      split
      next named =>
        obtain ⟨key, hkey⟩ := exists_key?_of_isNamed named
        rw [add_eq_insert _ hkey]
        exact ih (h.insert hkey)
      next => exact ih h

theorem find?_addAll (key : Text) (blocks : List Node) (definitions : Definitions) :
    (definitions.addAll blocks).find? key = (lastOf key blocks).or (definitions.find? key) := by
  induction blocks generalizing definitions with
  | nil => rfl
  | cons block blocks ih =>
      have last : lastOf key (block :: blocks) =
          (lastOf key blocks).or (if block.key? = some key then some block else none) := by
        unfold lastOf
        by_cases h : block.key? = some key
        · simp [h, List.getLast?_cons, Option.or_some]
        · simp [h]
      rw [addAll_cons, last]
      split
      next named =>
        obtain ⟨own, hown⟩ := exists_key?_of_isNamed named
        rw [ih, add_eq_insert _ hown, find?_insert, hown, Option.or_assoc]
        by_cases h : key = own
        · simp [h]
        · simp [h, Ne.symm h]
      next unnamed =>
        have : block.key? = none := by simpa [Node.isNamed_eq_isSome_key?] using unnamed
        simp [ih, this]

theorem addAll_append (definitions : Definitions) (xs ys : List Node) :
    definitions.addAll (xs ++ ys) = (definitions.addAll xs).addAll ys := by
  simp [addAll]

theorem addAll_of_unnamed {blocks : List Node} (h : ∀ block ∈ blocks, block.isNamed = false) :
    definitions.addAll blocks = definitions := by
  have : blocks.filter Node.isNamed = [] := by simpa using h
  simp [addAll, this]

/-- Definitions with keys that are there already take the places of others. -/
theorem keys_addAll_of_known {blocks : List Node} (h : ∀ block ∈ blocks, ∀ key ∈ block.key?, key ∈ definitions.keys) :
    (definitions.addAll blocks).keys = definitions.keys := by
  induction blocks generalizing definitions with
  | nil => rfl
  | cons block blocks ih =>
      rw [addAll_cons]
      split
      next named =>
        obtain ⟨key, hkey⟩ := exists_key?_of_isNamed named
        have known : (definitions.insert key block).keys = definitions.keys := by
          rw [keys_insert, if_pos (h block List.mem_cons_self key hkey)]
        rw [add_eq_insert _ hkey, ih, known]
        rw [known]
        exact fun other hother => h other (List.mem_cons_of_mem block hother)
      next => exact ih fun other hother => h other (List.mem_cons_of_mem block hother)

theorem addAll_map_snd {others : Definitions} (h : IsKeyed (definitions ++ others)) :
    definitions.addAll (others.map (·.2)) = definitions ++ others := by
  induction others generalizing definitions with
  | nil => simp [addAll]
  | cons entry rest ih =>
      obtain ⟨key, node⟩ := entry
      have hkey : node.key? = some key := h.keyed (key, node) (by simp)
      have named : node.isNamed := by simp [Node.isNamed_eq_isSome_key?, hkey]
      have absent : key ∉ definitions.keys := by
        intro hmem
        have := (List.nodup_append.mp (by simpa [keys] using h.nodup)).2.2 key hmem key (by simp)
        exact this rfl
      rw [List.map_cons, addAll_cons, if_pos named, add_eq_insert _ hkey, insert_of_not_mem absent, ih (by simpa using h),
        List.append_assoc, List.singleton_append]

/-! ## Parallel collections -/

theorem lastOf_append (key : Text) (xs ys : List Node) : lastOf key (xs ++ ys) = (lastOf key ys).or (lastOf key xs) := by
  rw [lastOf, List.filter_append, List.getLast?_append]
  rfl

theorem mem_of_lastOf {blocks : List Node} (h : lastOf key blocks = some node) : node ∈ blocks ∧ node.key? = some key := by
  simpa using List.mem_filter.mp (List.mem_of_getLast? h)

theorem lastOf_isSome {blocks : List Node} (hnode : node ∈ blocks) (hkey : node.key? = some key) :
    (lastOf key blocks).isSome := by
  rw [lastOf, List.getLast?_isSome]
  exact List.ne_nil_of_mem (List.mem_filter.mpr ⟨hnode, by simpa using hkey⟩)

theorem forall₂_of_find? {P : Node → Node → Prop} {others : Definitions} (same : others.keys = definitions.keys)
    (nodup : definitions.keys.Nodup)
    (h : ∀ key a b, definitions.find? key = some a → others.find? key = some b → P a b) :
    List.Forall₂ (fun a b => P a.2 b.2) definitions others := by
  induction definitions generalizing others with
  | nil =>
      rw [List.map_eq_nil_iff.mp same]
      exact .nil
  | cons entry definitions ih =>
      obtain ⟨other, others, rfl, hother, hothers⟩ := List.map_eq_cons_iff.mp same
      rw [keys_cons, List.nodup_cons] at nodup
      refine .cons (h entry.1 entry.2 other.2 ?_ ?_) (ih hothers nodup.2 fun key a b ha hb => h key a b ?_ ?_)
      · rw [find?_cons, if_pos rfl]
      · rw [find?_cons, if_pos hother]
      all_goals
        have hkey : key ∈ keys definitions := find?_isSome_iff.mp (by rw [ha]; rfl)
        have apart : entry.1 ≠ key := fun heq => nodup.1 (heq ▸ hkey)
      · rw [find?_cons, if_neg apart, ha]
      · rw [find?_cons, hother, if_neg apart, hb]

end Definitions

end Changelog
