import Changelog.Proofs.Review.Returned
import Changelog.Proofs.Version.Neighbours

/-! # Fixing a fixed document

A fixed document that is written and read again is a fixed document: its releases stay in their order and are linked
as before, those that could not be filled cannot be filled now either, and the definitions stay in their places. If
the parts of the document read back as they were written, it is written as before.
-/

namespace Changelog

/-- A node that is read again and is written as before. -/
structure Node.IsKept (node again : Node) : Prop extends node.IsAgain again where
  text : again.blockText = node.blockText

/-- A node that is written like another one, at a place at least if that one has a place. -/
structure Node.IsWrittenLike (node other : Node) : Prop where
  kind : other.kind = node.kind
  text : other.blockText = node.blockText
  place : other.position = none → node.position = none

/-- A node that takes the place of another one, or none. -/
def Node.TakesPlaceOf (node other : Node) : Prop :=
  other.kind = node.kind ∧ (other.position = node.position ∨ other.position = none)

theorem Node.IsKept.isWrittenLike {node again : Node} (h : node.IsKept again) : node.IsWrittenLike again where
  kind := h.kind_eq
  text := h.text
  place hnone := by
    have placed := h.placed
    simp [hnone] at placed

namespace Review

variable {env : Environment} {path : Option Path} {options : Options} {root : Node} {project : Project} {fetch : Fetch}
  {o : Outline} {q r s : Release} {sorting : Sorting} {ordered releases : List Release} {definitions : Definitions}
  {blocks : List Node}

/-! ## Headings and links -/

theorem isEmpty_shownDate (r : Release) : (shownDate r).isEmpty = false := by
  unfold shownDate
  cases hdate : r.date.filter (!·.isEmpty) with
  | none => rfl
  | some date => simpa using (Option.filter_eq_some_iff.mp hdate).2

theorem linkedHeading_again (told : IsToldOf r s.toReleaseHeading) (linked : (link? r).isSome) (version : Text) :
    linkedHeading s version = linkedHeading r version := by
  have hun : s.isUnreleased = r.isUnreleased := by rw [Release.isUnreleased, Release.isUnreleased, told.version]
  rw [linkedHeading_eq, linkedHeading_eq, hun]
  split
  · rfl
  next released =>
    have hdate := told.date linked (by simpa using released)
    have hshown : shownDate s = shownDate r := by
      rw [shownDate, hdate, Option.filter_some, isEmpty_shownDate]
      rfl
    rw [hshown]

theorem blockText_relinked_again (placed : IsPlaced r) (h : IsReturned Node.IsKept r s) (hlink : link? s = link? r) :
    (relinked s).heading.blockText = (relinked r).heading.blockText := by
  have hkind : (relinked r).heading.kind = .heading := Node.kind_of_headingDepth?_isSome placed.heading
  have hkind' : s.heading.kind = .heading := h.like.heading.kind_eq.trans hkind
  have hdepth : s.heading.depth = (relinked r).heading.depth := h.depth_eq placed
  have hun : s.isUnreleased = r.isUnreleased := by rw [Release.isUnreleased, Release.isUnreleased, h.told.version]
  have written : (relinked s).heading.blockText = Node.headingText (relinked r).heading.depth (relinked s).heading.children := by
    rw [← hdepth]
    exact Node.blockText_of_heading hkind'
  rw [written, Node.blockText_of_heading hkind, children_relinked, children_relinked, hlink]
  cases hr : link? r with
  | some link =>
      dsimp only
      rw [linkedHeading_again h.told (by rw [hr]; rfl)]
  | none =>
      dsimp only
      rw [hun]
      split
      · rfl
      next released =>
        have text : s.heading.blockText = (relinked r).heading.blockText := h.like.heading.text
        rw [Node.blockText_of_heading hkind, Node.blockText_of_heading hkind', children_relinked, hr, hdepth] at text
        simpa only [released, if_false, Bool.false_eq_true] using text

/-! ## Definitions -/

theorem IsFix.find?_eq (h : IsFix sorting path project fetch (Outline.ofNodes blocks) ordered releases definitions) (key : Text) :
    definitions.find? key =
      (Definitions.lastOf key (linkNodes project releases)).or (Definitions.lastOf key blocks) := by
  rw [Definitions.find?_perm h.isKeyed.1.nodup h.isKeyed.2.perm, Definitions.find?_addAll, Definitions.lastOf_append]
  simp [Definitions.find?]

theorem IsFix.mem_keys (h : IsFix sorting path project fetch (Outline.ofNodes blocks) ordered releases definitions) {node : Node}
    (hnode : node ∈ linkNodes project releases) : ∀ key ∈ node.key?, key ∈ definitions.keys := by
  intro key hkey
  rw [← Definitions.find?_isSome_iff, h.find?_eq, Option.isSome_or, Definitions.lastOf_isSome hnode hkey, Bool.true_or]

theorem sort_eq_self {unsorted others : Definitions} (h : unsorted.sort = .ok definitions)
    (same : others.keys = definitions.keys) : others.sort = .ok others := by
  unfold Definitions.sort Version.sortNewest at h
  split at h
  · contradiction
  next comparable =>
    cases h
    have known : Version.anyClash (others.map (·.1)) = false := by
      refine Eq.trans ?_ (by simpa using comparable)
      refine Version.anyClash_congr fun text => ?_
      rw [show others.map (·.1) = _ from same]
      exact ((stableSort_perm unsorted).map _).mem_iff
    have ordered : (others.map (·.1)).Pairwise fun a b => (Version.newestFirst a b).isLE := by
      rw [show others.map (·.1) = _ from same]
      exact List.pairwise_map.mpr (isStableSort_on (fun a : Text × Node => a.1) isTransitiveOn_of_transCmp).ordered
    rw [Definitions.sort, Version.sortNewest, if_neg (by simp [known]), stableSort_of_pairwise (List.pairwise_map.mp ordered)]

/-- Adding the definitions of the links again, a definition is that of a link both times, or it is kept. -/
theorem IsFix.find?_again {others : Definitions}
    (h : IsFix sorting path project fetch (Outline.ofNodes blocks) ordered releases definitions)
    (like : definitions.Like Node.IsKept others) {key : Text} {a c : Node} (ha : definitions.find? key = some a)
    (hc : (others.addAll (linkNodes project releases)).find? key = some c) :
    c = a ∧ a.position = none ∨ others.find? key = some c ∧ a.IsKept c := by
  obtain ⟨b, hb, hab⟩ := like.exists_find? ha
  rw [h.find?_eq] at ha
  rw [Definitions.find?_addAll] at hc
  cases hlast : Definitions.lastOf key (linkNodes project releases) with
  | some node =>
      rw [hlast, Option.some_or, Option.some.injEq] at ha hc
      obtain ⟨hmem, _⟩ := Definitions.mem_of_lastOf hlast
      obtain ⟨link, _, hlink⟩ := List.mem_map.mp hmem
      exact Or.inl ⟨hc.symm.trans ha, by rw [← ha, ← hlink]; rfl⟩
  | none =>
      rw [hlast, Option.none_or, hb, Option.some.injEq] at hc
      exact Or.inr ⟨hc ▸ hb, hc ▸ hab⟩

theorem IsFix.definitions_again {others : Definitions}
    (h : IsFix sorting path project fetch (Outline.ofNodes blocks) ordered releases definitions)
    (like : definitions.Like Node.IsKept others) :
    let again := others.addAll (linkNodes project releases)
    again.sort = .ok again ∧ List.Forall₂ (fun a c => Node.IsWrittenLike a.2 c.2) definitions again ∧
      List.Forall₂ (fun b c => Node.TakesPlaceOf b.2 c.2) others again := by
  intro again
  have known : ∀ node ∈ linkNodes project releases, ∀ key ∈ node.key?, key ∈ others.keys := by
    rw [like.keys_eq]
    exact fun node => h.mem_keys
  have keys : again.keys = others.keys := Definitions.keys_addAll_of_known known
  have nodup : others.keys.Nodup := like.keys_eq ▸ h.isKeyed.1.nodup
  -- the keys stay in order, since no link has a new one
  refine ⟨sort_eq_self h.sorted (keys.trans like.keys_eq), ?_, ?_⟩
  · refine Definitions.forall₂_of_find? (keys.trans like.keys_eq) h.isKeyed.1.nodup fun key a c ha hc => ?_
    rcases h.find?_again like ha hc with ⟨rfl, hplace⟩ | ⟨_, hkept⟩
    · exact ⟨rfl, rfl, fun _ => hplace⟩
    · exact hkept.isWrittenLike
  · refine Definitions.forall₂_of_find? keys nodup fun key b c hb hc => ?_
    have hkey : key ∈ definitions.keys := like.keys_eq ▸ Definitions.find?_isSome_iff.mp (by rw [hb]; rfl)
    obtain ⟨a, ha⟩ := Option.isSome_iff_exists.mp (Definitions.find?_isSome_iff.mpr hkey)
    obtain ⟨b', hb', hab⟩ := like.exists_find? ha
    rw [hb, Option.some.injEq] at hb'
    subst hb'
    rcases h.find?_again like ha hc with ⟨rfl, hplace⟩ | ⟨hc', _⟩
    · exact ⟨hab.kind_eq.symm, Or.inr hplace⟩
    · rw [hb, Option.some.injEq] at hc'
      exact hc' ▸ ⟨rfl, Or.inl rfl⟩

/-! ## Order -/

theorem pairwise_index (stretches : List Stretch) :
    (stretches.mapIdx Release.ofStretch).Pairwise fun a b => a.index < b.index := by
  rw [List.pairwise_iff_getElem]
  intro i j hi hj hij
  simpa [Release.ofStretch, Release.ofHeading] using hij

theorem IsFix.isSorted_again {stretches : List Stretch} (h : IsFix sorting path project fetch o ordered releases definitions)
    (transitive : IsTransitiveOn Release.newestFirst o.releases)
    (returned : List.Forall₂ (IsReturned Node.IsKept) releases (stretches.mapIdx Release.ofStretch)) :
    Release.isSorted (stretches.mapIdx Release.ofStretch) = .ok true := by
  have versions : (stretches.mapIdx Release.ofStretch).map Release.version? = releases.map Release.version? :=
    map_eq_map_of_forall₂ (returned.imp fun r s hrs => by rw [Release.version?, Release.version?, hrs.told.version])
  refine Release.isSorted_of_version? (sorting.sorts h.arranged transitive).2 (versions.trans h.map_version?) ?_
  refine (pairwise_index stretches).imp ?_
  exact fun hindex _ => hindex

/-! ## The second run -/

theorem IsFix.related_again (h : IsFix sorting path project fetch o ordered releases definitions) {others : List Release}
    (returned : List.Forall₂ (IsReturned Node.IsKept) releases others) :
    List.Forall₂ (fun r s => IsReturned Node.IsKept r s ∧ s.previous = r.previous) releases (Release.relate others) := by
  refine (Release.forall₂_relate (fun r s hrs => hrs.told.version) returned h.related).imp ?_
  rintro r s ⟨s', hrs, rfl⟩
  exact ⟨⟨hrs.told, hrs.heading, hrs.like⟩, rfl⟩

theorem IsFix.reviewed_again {others : List Release}
    (h : IsFix sorting path project fetch (Outline.ofNodes blocks) ordered releases definitions)
    (related : List.Forall₂ (fun r s => IsReturned Node.IsKept r s ∧ s.previous = r.previous) releases others) :
    List.Forall₂ (fun r r' => (reviewRelease path true project fetch [] r).outcome = .ok r') others others := by
  refine List.forall₂_same.mpr fun s hs => ?_
  obtain ⟨r, hr, hrs, hprevious⟩ := exists_left_of_forall₂ related hs
  obtain ⟨q, _, hqr⟩ := exists_left_of_forall₂ h.reviewed hr
  exact reviewRelease_again hqr hrs.told.version hprevious (hrs.isReadable_eq (h.isPlaced hr)) hrs.isEmpty_eq

theorem linkNodes_again {others : List Release}
    (related : List.Forall₂ (fun r s => IsReturned Node.IsKept r s ∧ s.previous = r.previous) releases others) :
    linkNodes project others = linkNodes project releases := by
  have links : others.map link? = releases.map link? :=
    map_eq_map_of_forall₂ (related.imp fun r s hrs => link?_congr hrs.1.told.version hrs.2)
  rw [linkNodes, linkNodes, filterMap_eq_of_map_eq links]

/-! ## The whole document -/

theorem fixedTitle_again {title : Option Node} {t : Node} (h : ∀ t ∈ title, t.headingDepth? = some 1)
    (kept : (fixedTitle title).IsKept t) :
    (fixedTitle title).IsWrittenLike (fixedTitle (some t)) ∧ t.TakesPlaceOf (fixedTitle (some t)) := by
  have hdepth := headingDepth?_fixedTitle title h
  have hdepth' : t.headingDepth? = some 1 := kept.headingDepth?_eq.trans hdepth
  have hkind := Node.kind_of_headingDepth?_isSome (by rw [hdepth]; rfl)
  have hkind' := Node.kind_of_headingDepth?_isSome (by rw [hdepth']; rfl)
  rw [Node.headingDepth?, if_pos hkind] at hdepth
  rw [Node.headingDepth?, if_pos hkind'] at hdepth'
  have again : fixedTitle (some t) = { t with children := Outline.titleNode.children } := by rw [fixedTitle, if_pos hdepth']
  rw [again]
  refine ⟨⟨kept.kind_eq, ?_, kept.isWrittenLike.place⟩, rfl, Or.inl rfl⟩
  rw [Node.blockText_of_heading hkind, hdepth, children_fixedTitle, ← hdepth']
  exact Node.blockText_of_heading hkind'

theorem stretch_again (placed : IsPlaced r) (returned : IsReturned Node.IsKept r s) (hprevious : s.previous = r.previous) :
    List.Forall₂ Node.IsWrittenLike (relinked r).stretch.nodes (relinked s).stretch.nodes := by
  have hlink : link? s = link? r := link?_congr returned.told.version hprevious
  refine .cons ⟨returned.like.heading.kind_eq, blockText_relinked_again placed returned hlink, ?_⟩ ?_
  · exact returned.like.heading.isWrittenLike.place
  · exact returned.like.blocks.imp fun _ _ hkept => hkept.isWrittenLike

theorem takesPlaceOf_relinked (r : Release) : List.Forall₂ Node.TakesPlaceOf r.stretch.nodes (relinked r).stretch.nodes :=
  .cons ⟨rfl, Or.inl rfl⟩ (List.forall₂_same.mpr fun _ _ => ⟨rfl, Or.inl rfl⟩)

theorem map_stretch_again (stretches : List Stretch) :
    (Release.relate (stretches.mapIdx Release.ofStretch)).map Release.stretch = stretches := by
  rw [Release.map_relate (fun _ _ => rfl), List.mapIdx_eq_zipIdx_map, List.map_map]
  refine Eq.trans (List.map_congr_left fun s _ => Release.stretch_ofStretch s.2 s.1) ?_
  exact List.zipIdx_map_fst 0 stretches

/-- What is not a definition is written as before, at the same place. -/
theorem layout_again {layout : Layout} {others : List Release} (entries : Definitions)
    (h : IsFix sorting path project fetch (Outline.ofNodes blocks) ordered releases definitions)
    (like : (fixedLayout (Outline.ofNodes blocks) releases).Like Node.IsKept layout)
    (same : others.map Release.stretch = layout.releases)
    (related : List.Forall₂ (fun r s => IsReturned Node.IsKept r s ∧ s.previous = r.previous) releases others) :
    List.Forall₂ Node.IsWrittenLike (fixedLayout (Outline.ofNodes blocks) releases).nodes
        (fixedLayout (Outline.ofLayout layout entries) others).nodes ∧
      List.Forall₂ Node.TakesPlaceOf layout.nodes (fixedLayout (Outline.ofLayout layout entries) others).nodes := by
  obtain ⟨t, ht, hkept⟩ := exists_of_rel_some like.title
  obtain ⟨titleWritten, titlePlaced⟩ := fixedTitle_again (headingDepth?_of_mem_heading blocks) hkept
  have releasesWritten : List.Forall₂ Node.IsWrittenLike
      ((releases.map fun r => (relinked r).stretch).flatMap Stretch.nodes)
      ((others.map fun s => (relinked s).stretch).flatMap Stretch.nodes) := by
    have each := (List.forall₂_and_left _ _).mpr ⟨fun r hr => h.isPlaced hr, related⟩
    refine List.rel_flatMap (R := fun s t => List.Forall₂ Node.IsWrittenLike s.nodes t.nodes) ?_ fun _ _ hst => hst
    rw [List.forall₂_map_left_iff, List.forall₂_map_right_iff]
    exact each.imp fun r s hrs => stretch_again hrs.1 hrs.2.1 hrs.2.2
  have releasesPlaced : List.Forall₂ Node.TakesPlaceOf (layout.releases.flatMap Stretch.nodes)
      ((others.map fun s => (relinked s).stretch).flatMap Stretch.nodes) := by
    rw [← same]
    refine List.rel_flatMap (R := fun s t => List.Forall₂ Node.TakesPlaceOf s.nodes t.nodes) ?_ fun _ _ hst => hst
    rw [List.forall₂_map_left_iff, List.forall₂_map_right_iff, List.forall₂_same]
    exact fun s _ => takesPlaceOf_relinked s
  have heading : (fixedLayout (Outline.ofLayout layout entries) others).title = some (fixedTitle (some t)) :=
    congrArg (fun title => some (fixedTitle title)) ht
  refine ⟨?_, ?_⟩
  · rw [Layout.nodes, Layout.nodes, heading]
    refine List.rel_append (List.rel_append (.cons titleWritten .nil) ?_) releasesWritten
    exact like.preamble.imp fun _ _ hkept => hkept.isWrittenLike
  · rw [Layout.nodes, Layout.nodes, heading, ht]
    refine List.rel_append (List.rel_append (.cons titlePlaced .nil) ?_) releasesPlaced
    exact List.forall₂_same.mpr fun _ _ => ⟨rfl, Or.inl rfl⟩

/-- Fixing a fixed document again writes every block as before. -/
theorem IsFix.exists_again {again : List Node}
    (h : IsFix sorting path project fetch (Outline.ofNodes blocks) ordered releases definitions)
    (transitive : IsTransitiveOn Release.newestFirst (Outline.ofNodes blocks).releases)
    (later : ∀ r ∈ releases.tail, r.heading.startsRelease)
    (told : ∀ r ∈ releases, IsTold r)
    (kept : List.Forall₂ Node.IsKept (fixedOutline (Outline.ofNodes blocks) releases definitions).nodes again) :
    ∃ reordered others rest, IsFix sorting path project fetch (Outline.ofNodes again) reordered others rest ∧
      List.Forall₂ Node.IsWrittenLike (fixedOutline (Outline.ofNodes blocks) releases definitions).nodes
        (fixedOutline (Outline.ofNodes again) others rest).nodes ∧
      List.Forall₂ Node.TakesPlaceOf again (fixedOutline (Outline.ofNodes again) others rest).nodes := by
  obtain ⟨layout, entries, rfl, like, likeEntries, outline, returned⟩ :=
    h.exists_returned (fun _ _ hab => hab.toIsAgain) later told kept
  rw [nodes_fixedOutline]
  have related := h.related_again returned
  obtain ⟨sortedEntries, writtenEntries, placedEntries⟩ := h.definitions_again likeEntries
  obtain ⟨written, placed⟩ := layout_again entries h like (map_stretch_again layout.releases) related
  rw [outline]
  refine ⟨layout.releases.mapIdx Release.ofStretch, Release.relate (layout.releases.mapIdx Release.ofStretch),
    entries.addAll (linkNodes project releases),
    ⟨sorting.keeps (h.isSorted_again transitive returned), h.reviewed_again related, ?_⟩, ?_, ?_⟩
  · rw [linkNodes_again related]
    exact sortedEntries
  · rw [nodes_fixedOutline]
    refine List.rel_append written ?_
    rwa [List.forall₂_map_left_iff, List.forall₂_map_right_iff]
  · rw [nodes_fixedOutline]
    refine List.rel_append placed ?_
    rwa [List.forall₂_map_left_iff, List.forall₂_map_right_iff]

end Review

end Changelog
