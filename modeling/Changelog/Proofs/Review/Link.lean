import Changelog.Proofs.Outline.Definitions
import Changelog.Proofs.Text.Lowercase
import Changelog.Review.Link
import Mathlib.Data.List.Forall2
import Mathlib.Data.List.Nodup

/-! # What linking does

Linking rewrites each heading by itself, and sets the definitions of the links one after the other, as if they stood
behind those of the document. Whether a release is the oldest need not be asked: the oldest has no next older one.
-/

namespace Changelog

namespace Release

variable {releases others : List Release}

theorem relate_cons_eq_iff {r : Release} : relate (r :: releases) = r :: releases ↔
    r.previous = releases.head?.bind (·.version) ∧ relate releases = releases := by
  rw [relate, List.cons.injEq]
  refine and_congr_left fun _ => ⟨fun same => (congrArg previous same).symm, fun same => ?_⟩
  rw [← same]

theorem forall₂_relate {R : Release → Release → Prop} (hversion : ∀ r s, R r s → s.version = r.version)
    (h : List.Forall₂ R releases others) (related : relate releases = releases) :
    List.Forall₂ (fun r s => ∃ s', R r s' ∧ s = { s' with previous := r.previous }) releases (relate others) := by
  induction h with
  | nil => exact .nil
  | @cons r s releases others hrs hrest ih =>
      obtain ⟨next, related⟩ := relate_cons_eq_iff.mp related
      refine .cons ⟨s, hrs, ?_⟩ (ih related)
      rw [next]
      cases hrest with
      | nil => rfl
      | cons hnext _ => simp [hversion _ _ hnext]

theorem exists_of_mem_relate {s : Release} (h : s ∈ relate releases) : ∃ r ∈ releases, ∃ previous, s = { r with previous } := by
  induction releases with
  | nil => contradiction
  | cons r rest ih =>
      rcases List.mem_cons.mp h with rfl | h
      · exact ⟨r, List.mem_cons_self, _, rfl⟩
      · obtain ⟨r', hr', previous, hs⟩ := ih h
        exact ⟨r', List.mem_cons_of_mem r hr', previous, hs⟩

theorem map_relate {α : Type} {f : Release → α} (hf : ∀ r previous, f { r with previous } = f r) (releases : List Release) :
    (relate releases).map f = releases.map f := by
  induction releases with
  | nil => rfl
  | cons r rest ih => rw [relate, List.map_cons, List.map_cons, ih, hf]

theorem relate_eq_self (h : List.Forall₂ (fun r s => s.version = r.version ∧ s.previous = r.previous)
    (relate releases) others) : relate others = others := by
  induction releases generalizing others with
  | nil =>
      rw [relate, List.forall₂_nil_left_iff] at h
      rw [h, relate]
  | cons r rest ih =>
      rw [relate, List.forall₂_cons_left_iff] at h
      obtain ⟨s, others, ⟨_, hprevious⟩, htail, rfl⟩ := h
      have hnext : others.head?.bind (·.version) = s.previous := by
        rw [hprevious]
        cases rest with
        | nil =>
            rw [relate, List.forall₂_nil_left_iff] at htail
            simp [htail]
        | cons t rest =>
            rw [relate, List.forall₂_cons_left_iff] at htail
            obtain ⟨u, _, ⟨hversion, _⟩, _, rfl⟩ := htail
            simp [hversion]
      rw [relate, ih htail, hnext]

end Release

namespace Review

variable {project : Project} {definitions : Definitions} {releases : List Release} {r : Release}

/-- The version of a release and the next older one, between which its link compares. -/
def link? (r : Release) : Option (Text × Text) := linkable? false r

theorem link?_congr {s : Release} (hversion : s.version = r.version) (hprevious : s.previous = r.previous) :
    link? s = link? r := by
  simp only [link?, linkable?, Release.version?, hversion, hprevious]

/-- The release as linking leaves it. -/
def relinked (r : Release) : Release :=
  r.withHeadingNodes <|
    match link? r with
    | some (version, _) => linkedHeading r version
    | none => if r.isUnreleased then [Node.ofText unreleasedText] else r.heading.children

theorem children_relinked (r : Release) : (relinked r).heading.children =
    match link? r with
    | some (version, _) => linkedHeading r version
    | none => if r.isUnreleased then [Node.ofText unreleasedText] else r.heading.children := rfl

/-- The date that is written in the heading of a linked release. -/
def shownDate (r : Release) : Text := (r.date.filter (!·.isEmpty)).getD datePlaceholder

theorem shownDate_of_date {date : Text} (h : r.date = some date) (filled : date.isEmpty = false) : shownDate r = date := by
  rw [shownDate, h, Option.filter_some, filled]
  rfl

theorem linkedHeading_eq (r : Release) (version : Text) : linkedHeading r version =
    if r.isUnreleased then
      [Node.linkReference (Text.lowercase version) (Text.lowercase version) .full [Node.ofText unreleasedText]]
    else
      [Node.linkReference (Text.lowercase version) (Text.lowercase version) .shortcut [Node.ofText version],
        Node.ofText (ReleaseHeading.dateSeparator ++ shownDate r)] := rfl

def linkNode (project : Project) (link : Text × Text) : Node :=
  Node.definition (Text.lowercase link.1) (Text.lowercase link.1) (compareUrl project link.1 link.2)

def linkNodes (project : Project) (releases : List Release) : List Node :=
  (releases.filterMap link?).map (linkNode project)

@[simp] theorem key?_linkNode (link : Text × Text) : (linkNode project link).key? = some (Text.lowercase link.1) := by
  simp [linkNode, Node.definition, Node.key?]

theorem linkable?_eq_link? {isLast : Bool} (h : isLast → r.previous = none) : linkable? isLast r = link? r := by
  cases isLast with
  | false => rfl
  | true =>
      unfold link? linkable?
      simp only [h rfl, Option.filter_none, if_true, Bool.false_eq_true, if_false]
      cases r.version? <;> rfl

theorem withHeadingNodes_children (r : Release) : r.withHeadingNodes r.heading.children = r := by
  obtain ⟨heading, ⟨⟨⟩, content, children⟩, index, previous⟩ := r
  rfl

theorem linkRelease_eq {isLast : Bool} (h : isLast → r.previous = none) (definitions : Definitions) :
    linkRelease project isLast r definitions = (relinked r, definitions.addAll (linkNodes project [r])) := by
  unfold linkRelease relinked linkNodes
  rw [linkable?_eq_link? h]
  cases hlink : link? r with
  | none =>
      simp only [List.filterMap_cons, hlink, List.filterMap_nil, List.map_nil, Definitions.addAll, List.filter_nil,
        List.foldl_nil, Prod.mk.injEq, and_true]
      split
      · rfl
      · exact (withHeadingNodes_children r).symm
  | some link =>
      have named : (linkNode project link).isNamed := by simp [Node.isNamed_eq_isSome_key?]
      simp only [List.filterMap_cons, hlink, List.filterMap_nil, List.map_cons, List.map_nil]
      rw [Definitions.addAll_cons, if_pos named, Definitions.add_eq_insert _ (key?_linkNode link)]
      rfl

theorem previous_of_relate_cons {rest : List Release} (h : Release.relate (r :: rest) = r :: rest) :
    (rest.isEmpty → r.previous = none) ∧ Release.relate rest = rest := by
  obtain ⟨next, related⟩ := Release.relate_cons_eq_iff.mp h
  refine ⟨fun hempty => ?_, related⟩
  rw [next, List.isEmpty_iff.mp hempty]
  rfl

/-- Linking works on each release by itself, and adds the definitions of the links. -/
theorem linkReleases_eq (h : Release.relate releases = releases) (definitions : Definitions) :
    linkReleases project releases definitions =
      (releases.map relinked, definitions.addAll (linkNodes project releases)) := by
  induction releases generalizing definitions with
  | nil => rfl
  | cons r rest ih =>
      obtain ⟨last, related⟩ := previous_of_relate_cons h
      have nodes : linkNodes project (r :: rest) = linkNodes project [r] ++ linkNodes project rest := by
        simp only [linkNodes, ← List.map_append, ← List.filterMap_append, List.singleton_append]
      rw [linkReleases, linkRelease_eq last, nodes, Definitions.addAll_append]
      simp only [ih related, List.map_cons]

theorem linkRemarks_eq (h : Release.relate releases = releases) :
    linkRemarks project definitions releases = releases.flatMap fun r =>
      (linkFindings project definitions false r).map fun finding => { finding, position := r.heading.position } := by
  induction releases with
  | nil => rfl
  | cons r rest ih =>
      obtain ⟨last, related⟩ := previous_of_relate_cons h
      rw [linkRemarks, ih related, List.flatMap_cons, linkFindings, linkFindings, linkable?_eq_link? last, link?]

theorem linkFindings_eq_nil (h : ∀ link, link? r = some link → r.link = some .linkReference ∧
      (definitions.find? (Text.lowercase link.1)).bind Node.url = some (compareUrl project link.1 link.2)) :
    linkFindings project definitions false r = [] := by
  unfold linkFindings
  cases hlink : link? r with
  | none =>
      rw [link?] at hlink
      rw [hlink]
  | some link =>
      obtain ⟨version, previous⟩ := link
      obtain ⟨hkind, hurl⟩ := h _ hlink
      rw [link?] at hlink
      simp [hlink, hkind, hurl]

theorem version?_of_link? {link : Text × Text} (h : link? r = some link) : r.version? = some link.1 := by
  unfold link? linkable? at h
  split at h
  · contradiction
  · split at h
    next version previous hversion _ =>
      cases h
      exact hversion
    next => contradiction

theorem previous_of_link? {link : Text × Text} (h : link? r = some link) : r.previous.filter (!·.isEmpty) = some link.2 := by
  unfold link? linkable? at h
  split at h
  · contradiction
  · split at h
    next version previous _ hprevious =>
      cases h
      exact hprevious
    next => contradiction

theorem exists_version?_of_link? {link : Text × Text} (related : Release.relate releases = releases) (hr : r ∈ releases)
    (hlink : link? r = some link) : ∃ s ∈ releases, s.version? = some link.2 := by
  induction releases with
  | nil => contradiction
  | cons first rest ih =>
      obtain ⟨next, related⟩ := Release.relate_cons_eq_iff.mp related
      rcases List.mem_cons.mp hr with rfl | hr
      · have behind := previous_of_link? hlink
        rw [next] at behind
        cases rest with
        | nil => contradiction
        | cons s rest => exact ⟨s, by simp, behind⟩
      · obtain ⟨s, hs, hversion⟩ := ih related hr
        exact ⟨s, List.mem_cons_of_mem first hs, hversion⟩

theorem sublist_versions (releases : List Release) :
    ((releases.filterMap link?).map (·.1)).Sublist (releases.filterMap Release.version?) := by
  induction releases with
  | nil => exact .slnil
  | cons r rest ih =>
      cases hlink : link? r with
      | none =>
          simp only [List.filterMap_cons, hlink]
          split
          · exact ih
          · exact ih.cons _
      | some link =>
          simp only [List.filterMap_cons, hlink, version?_of_link? hlink]
          exact ih.cons_cons link.1

/-- Where no two versions have one lower-case form, the definition of each link is the last that was added. -/
theorem lastOf_linkNodes (hdistinct : ((releases.filterMap Release.version?).map Text.lowercase).Nodup)
    {link : Text × Text} (hr : r ∈ releases) (hlink : link? r = some link) (blocks : List Node) :
    Definitions.lastOf (Text.lowercase link.1) (blocks ++ linkNodes project releases) = some (linkNode project link) := by
  have distinct : ((releases.filterMap link?).map fun l => Text.lowercase l.1).Nodup := by
    have := hdistinct.sublist ((sublist_versions releases).map Text.lowercase)
    rwa [List.map_map] at this
  have hmem : link ∈ releases.filterMap link? := List.mem_filterMap.mpr ⟨r, hr, hlink⟩
  have matching : (linkNodes project releases).filter (fun n => n.key? = some (Text.lowercase link.1)) ≠ [] := by
    refine List.ne_nil_of_mem (List.mem_filter.mpr ⟨List.mem_map_of_mem hmem, ?_⟩)
    simp
  rw [Definitions.lastOf, List.filter_append, List.getLast?_append_of_ne_nil _ matching,
    List.getLast?_eq_some_getLast matching, Option.some.injEq]
  have last := List.getLast_mem matching
  obtain ⟨hnode, hkey⟩ := List.mem_filter.mp last
  obtain ⟨found, hfound, heq⟩ := List.mem_map.mp hnode
  rw [← heq] at hkey ⊢
  have same : Text.lowercase found.1 = Text.lowercase link.1 := by simpa using hkey
  rw [List.inj_on_of_nodup_map distinct hfound hmem same]

end Review

end Changelog
