import Changelog.Outline.Release
import Changelog.Proofs.Markdown.Unplaced
import Changelog.Proofs.Text.Splitting

/-! # Reading release headings

What a heading says of the date holds no separator, so a heading that is written from a version and a date says
the same again.
-/

namespace Changelog

namespace Node

variable {node child : Node} {kind : Kind}

theorem inlineText_of_text (h : node.kind = .text) : node.inlineText = node.value.getD [] := by
  obtain ⟨kind, depth, value⟩ := node
  cases h
  rfl

theorem children_of_soleChild? (h : node.soleChild? kind = some child) : node.children = [child] ∧ child.kind = kind := by
  unfold soleChild? at h
  split at h
  next only hchildren =>
    split at h
    next hkind =>
      cases h
      exact ⟨hchildren, hkind⟩
    next => contradiction
  next => contradiction

theorem inlineTextAll_subset_of_link (h : node.kind = .link ∨ node.kind = .linkReference) :
    inlineTextAll node.children ⊆ node.inlineText := by
  obtain ⟨kind, depth, value, url, title, identifier, label, form, spread, children⟩ := node
  rcases h with h | h
  · cases h
    simp only [inlineText, linkText]
    intro c hc
    simp [hc]
  · cases h
    simp only [inlineText, referenceText]
    intro c hc
    split <;> simp [hc]

end Node

namespace ReleaseHeading

/-- A date holds no separator. -/
def IsPlainDate (date : Option Text) : Prop := ∀ d ∈ date, Text.IsUnsplit dateSeparator d

theorem isPlainDate_none : IsPlainDate none := nofun

theorem isPlainDate_ofPlain (text : Text) : IsPlainDate (ofPlain text).date := by
  unfold ofPlain
  split
  · exact isPlainDate_none
  · split
    · exact isPlainDate_none
    next version date hsplit =>
      rintro d ⟨⟩
      exact @Text.isUnsplit_of_mem_splitAll dateSeparator text date (by simp [hsplit])
    · exact isPlainDate_none

theorem isPlainDate_ofLinked (kind : Kind) (version : Text) (after : List Node) :
    IsPlainDate (ofLinked kind version after).date := by
  unfold ofLinked
  split
  · exact isPlainDate_none
  next _ value _ _ _ _ _ _ _ _ =>
    split
    next date hsplit =>
      rintro d ⟨⟩
      exact @Text.isUnsplit_of_mem_splitAll dateSeparator (value.getD []) date (by simp [hsplit])
    · exact isPlainDate_none
  · exact isPlainDate_none

theorem isPlainDate_ofNodes (nodes : List Node) : IsPlainDate (ofNodes nodes).date := by
  unfold ofNodes
  split
  · exact isPlainDate_none
  · split
    · exact isPlainDate_ofPlain _
    · split
      · split
        · exact isPlainDate_ofLinked _ _ _
        · exact isPlainDate_none
      · exact isPlainDate_none

/-! ## What plays no part -/

theorem ofLinked_withoutPositions (kind : Kind) (version : Text) (after : List Node) :
    ofLinked kind version (Node.withoutPositionsAll after) = ofLinked kind version after := by
  cases after with
  | nil => rfl
  | cons node rest =>
      obtain ⟨kind', depth, value, url, title, identifier, label, form, spread, children, position⟩ := node
      cases rest <;> cases kind' <;> rfl

/-- What a heading says does not depend on where it stands. -/
theorem ofNodes_withoutPositions (nodes : List Node) : ofNodes (Node.withoutPositionsAll nodes) = ofNodes nodes := by
  cases nodes with
  | nil => rfl
  | cons first after =>
      have empty : (Node.withoutPositionsAll after).isEmpty = after.isEmpty := by cases after <;> rfl
      simp only [Node.withoutPositionsAll, ofNodes, Node.kind_withoutPositions, Node.value_withoutPositions, empty,
        Node.soleChild?_withoutPositions]
      cases first.soleChild? .text with
      | none => rfl
      | some label => simp only [Option.map_some, Node.value_withoutPositions, ofLinked_withoutPositions]

/-! ## Where version and date come from -/

/-- Version and date hold no other characters than a text, unless the version is that of what is not released yet. -/
structure IsTakenFrom (said : ReleaseHeading) (text : Text) : Prop where
  version : ∀ v ∈ said.version, v = unreleased ∨ v ⊆ text
  date : ∀ d ∈ said.date, d ⊆ text

theorem IsTakenFrom.mono {said : ReleaseHeading} {text other : Text} (h : IsTakenFrom said text) (hsub : text ⊆ other) :
    IsTakenFrom said other where
  version v hv := (h.version v hv).imp_right fun hv => List.Subset.trans hv hsub
  date d hd := List.Subset.trans (h.date d hd) hsub

theorem isTakenFrom_of_none {said : ReleaseHeading} (hversion : said.version = none) (hdate : said.date = none) (text : Text) :
    IsTakenFrom said text where
  version := hversion ▸ nofun
  date := hdate ▸ nofun

theorem isTakenFrom_ofPlain (text : Text) : IsTakenFrom (ofPlain text) text := by
  unfold ofPlain
  split
  · exact ⟨fun v hv => Or.inl (Option.some.inj hv).symm, nofun⟩
  · split
    next version hsplit =>
      refine ⟨?_, nofun⟩
      rintro v ⟨⟩
      exact Or.inr ((@Text.infix_of_mem_splitAll dateSeparator text version (by simp [hsplit])).subset)
    next version date hsplit =>
      refine ⟨?_, ?_⟩
      · rintro v ⟨⟩
        exact Or.inr ((@Text.infix_of_mem_splitAll dateSeparator text version (by simp [hsplit])).subset)
      · rintro d ⟨⟩
        exact (@Text.infix_of_mem_splitAll dateSeparator text date (by simp [hsplit])).subset
    next => exact isTakenFrom_of_none rfl rfl _

theorem isTakenFrom_ofLinked (kind : Kind) (version : Text) (after : List Node) :
    IsTakenFrom (ofLinked kind version after) (version ++ Node.inlineTextAll after) := by
  unfold ofLinked
  split
  · refine ⟨?_, nofun⟩
    rintro v ⟨⟩
    split
    · exact Or.inl rfl
    · exact Or.inr (List.subset_append_left _ _)
  next depth value url title identifier label form spread children position =>
    split
    next date hsplit =>
      refine ⟨?_, ?_⟩
      · rintro v ⟨⟩
        exact Or.inr (List.subset_append_left _ _)
      · rintro d ⟨⟩
        have taken := (@Text.infix_of_mem_splitAll dateSeparator (value.getD []) date (by simp [hsplit])).subset
        refine List.Subset.trans taken (List.Subset.trans ?_ (List.subset_append_right _ _))
        rw [Node.inlineTextAll, Node.inlineText]
        exact List.subset_append_left _ _
    next => exact isTakenFrom_of_none rfl rfl _
  · exact isTakenFrom_of_none rfl rfl _

theorem isTakenFrom_ofNodes (nodes : List Node) : IsTakenFrom (ofNodes nodes) (Node.inlineTextAll nodes) := by
  unfold ofNodes
  split
  · exact isTakenFrom_of_none rfl rfl _
  next first after =>
    rw [Node.inlineTextAll]
    split
    next hplain =>
      simp only [Bool.and_eq_true, decide_eq_true_eq] at hplain
      rw [← Node.inlineText_of_text hplain.1]
      exact (isTakenFrom_ofPlain _).mono (List.subset_append_left _ _)
    next =>
      split
      next hlink =>
        split
        next label hlabel =>
          obtain ⟨hchildren, hkind⟩ := Node.children_of_soleChild? hlabel
          have printed : label.value.getD [] ⊆ first.inlineText := by
            have content := @Node.inlineTextAll_subset_of_link first (by simpa using hlink)
            rw [hchildren, Node.inlineTextAll, Node.inlineTextAll, List.append_nil, Node.inlineText_of_text hkind] at content
            exact content
          refine (isTakenFrom_ofLinked _ _ _).mono (List.append_subset.mpr ⟨?_, List.subset_append_right _ _⟩)
          exact List.Subset.trans printed (List.subset_append_left _ _)
        next => exact isTakenFrom_of_none rfl rfl _
      next => exact isTakenFrom_of_none rfl rfl _

theorem isParseable_of_version {nodes : List Node} (h : (ofNodes nodes).version.isSome) : (ofNodes nodes).isParseable := by
  revert h
  unfold ofNodes
  split
  · simp
  · split
    · unfold ofPlain
      split
      · exact fun _ => rfl
      · split
        · exact fun _ => rfl
        · exact fun _ => rfl
        · simp
    · split
      · split
        · unfold ofLinked
          split
          · exact fun _ => rfl
          · split
            · exact fun _ => rfl
            · simp
          · simp
        · simp
      · simp

theorem ofNodes_linked {identifier label version date : Text} (h : Text.IsUnsplit dateSeparator date) :
    ofNodes [Node.linkReference identifier label .shortcut [Node.ofText version],
      Node.ofText (dateSeparator ++ date)] =
      { version := some version, date := some date, link := some .linkReference, isParseable := true } := by
  have parts := Text.splitAll_append (by decide) h
  simp [ofNodes, Node.linkReference, Node.soleChild?, Node.ofText, ofLinked, parts]

theorem ofNodes_separated {version date : Text} (released : saysUnreleased (version ++ (dateSeparator ++ date)) = false)
    (hversion : ¬dateSeparator <:+: version ++ dateSeparator.dropLast) (h : Text.IsUnsplit dateSeparator date) :
    ofNodes [Node.ofText (version ++ (dateSeparator ++ date))] =
      { version := some version, date := some date, title := some (version ++ (dateSeparator ++ date)),
        isParseable := true } := by
  have parts : Text.splitAll dateSeparator (version ++ (dateSeparator ++ date)) = [version, date] :=
    Text.splitAll_append_append hversion h
  simp [ofNodes, Node.ofText, ofPlain, released, parts]

theorem ofNodes_plain {version date : Text} (released : saysUnreleased (version ++ (dateSeparator ++ date)) = false)
    (hversion : ' ' ∉ version) (h : Text.IsUnsplit dateSeparator date) :
    ofNodes [Node.ofText (version ++ (dateSeparator ++ date))] =
      { version := some version, date := some date, title := some (version ++ (dateSeparator ++ date)),
        isParseable := true } := by
  refine ofNodes_separated released (fun inside => ?_) h
  have spaces := inside.sublist.count_le ' '
  rw [List.count_append, List.count_eq_zero_of_not_mem hversion] at spaces
  exact absurd spaces (by decide)

end ReleaseHeading

end Changelog
