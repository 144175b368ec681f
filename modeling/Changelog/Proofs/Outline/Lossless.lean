import Changelog.Proofs.Outline.Assembly

/-! # Nothing is lost in sections

A document in sections is written out as the blocks it was built from. Only the definitions move: they come after
everything else, one for each identifier, in the order in which the identifiers first occur. What is written out has
the same sections and the same definitions again.
-/

namespace Changelog

namespace Definitions

theorem keys_addAll (blocks : List Node) (definitions : Definitions) :
    (definitions.addAll blocks).keys =
      definitions.keys ++ ((blocks.filterMap Node.key?).filter (· ∉ definitions.keys)).eraseDups := by
  induction blocks generalizing definitions with
  | nil => simp [addAll]
  | cons block blocks ih =>
      rw [addAll_cons]
      cases hkey : block.key? with
      | none =>
          have unnamed : block.isNamed = false := by simp [Node.isNamed_eq_isSome_key?, hkey]
          rw [unnamed, if_neg Bool.false_ne_true, ih, List.filterMap_cons_none hkey]
      | some key =>
          have named : block.isNamed := by simp [Node.isNamed_eq_isSome_key?, hkey]
          rw [if_pos named, add_eq_insert _ hkey, ih, keys_insert, List.filterMap_cons_some hkey]
          by_cases known : key ∈ definitions.keys
          · rw [if_pos known, List.filter_cons_of_neg (by simpa using known)]
          · rw [if_neg known, List.filter_cons_of_pos (by simpa using known), List.eraseDups_cons, List.filter_filter,
              List.append_assoc, List.singleton_append]
            congr 4
            funext other
            simp [beq_eq_decide, Bool.and_comm]

theorem keys_addAll_nil (blocks : List Node) : (addAll [] blocks).keys = (blocks.filterMap Node.key?).eraseDups := by
  have fresh : (blocks.filterMap Node.key?).filter (· ∉ keys []) = blocks.filterMap Node.key? := by simp [keys]
  rw [keys_addAll, fresh]
  rfl

theorem lastOf_eq_some_of_mem_addAll {blocks : List Node} {entry : Text × Node} (h : entry ∈ addAll [] blocks) :
    lastOf entry.1 blocks = some entry.2 := by
  have found := (find?_eq_some_iff (isKeyed_addAll blocks IsKeyed.nil).nodup).mpr h
  rw [find?_addAll] at found
  simpa [find?] using found

end Definitions

namespace Outline

theorem nodes_ofNodes (blocks : List Node) :
    (ofNodes blocks).nodes = blocks.filter (!·.isNamed) ++ (ofNodes blocks).definitions.map (·.2) := by
  rw [ofNodes_eq_ofLayout, nodes_ofLayout, Layout.nodes_ofNodes]
  rfl

/-- The blocks that are no definitions determine the sections, and definitions with their own keys are found again. -/
theorem ofNodes_nodes_ofNodes (blocks : List Node) : ofNodes (ofNodes blocks).nodes = ofNodes blocks := by
  have keyed := Definitions.isKeyed_addAll blocks Definitions.IsKeyed.nil
  have unnamed : ∀ block ∈ blocks.filter (!·.isNamed), block.isNamed = false := by
    intro block h
    simpa using (List.mem_filter.mp h).2
  have written : (ofNodes blocks).nodes = blocks.filter (!·.isNamed) ++ (Definitions.addAll [] blocks).map (·.2) := by
    rw [nodes_ofNodes, ofNodes_eq_ofLayout]
    rfl
  have layout : Layout.ofNodes (ofNodes blocks).nodes = Layout.ofNodes blocks := by
    have named : ((Definitions.addAll [] blocks).map (·.2)).filter (!·.isNamed) = [] := by
      rw [List.filter_eq_nil_iff]
      intro block h
      simp [keyed.isNamed h]
    rw [Layout.ofNodes, written, List.filter_append, List.filter_filter, named, List.append_nil]
    simp [Layout.ofNodes]
  have definitions : Definitions.addAll [] (ofNodes blocks).nodes = Definitions.addAll [] blocks := by
    rw [written, Definitions.addAll_append, Definitions.addAll_of_unnamed unnamed,
      Definitions.addAll_map_snd (by simpa using keyed), List.nil_append]
  rw [ofNodes_eq_ofLayout, layout, definitions, ← ofNodes_eq_ofLayout]

/-- A document in sections is written out as its blocks in their order, but with the definitions at the end: one for
    each identifier in lower case, the last that was given, in the order in which the identifiers first occur. The
    outline of what is written out is the same. -/
theorem nodes_ofNodes_lossless (blocks : List Node) :
    (ofNodes blocks).definitions.keys = (blocks.filterMap Node.key?).eraseDups ∧
      (∀ entry ∈ (ofNodes blocks).definitions, Definitions.lastOf entry.1 blocks = some entry.2) ∧
      (ofNodes blocks).nodes = blocks.filter (!·.isNamed) ++ (ofNodes blocks).definitions.map (·.2) ∧
      ofNodes (ofNodes blocks).nodes = ofNodes blocks := by
  have added : (ofNodes blocks).definitions = Definitions.addAll [] blocks := by rw [ofNodes_eq_ofLayout]; rfl
  refine ⟨?_, ?_, nodes_ofNodes blocks, ofNodes_nodes_ofNodes blocks⟩
  · rw [added, Definitions.keys_addAll_nil]
  · rw [added]
    exact fun entry h => Definitions.lastOf_eq_some_of_mem_addAll h

end Outline

end Changelog
