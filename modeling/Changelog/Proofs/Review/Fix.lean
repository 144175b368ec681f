import Changelog.Proofs.Outline.Assembly
import Changelog.Proofs.Review.Backfill
import Changelog.Proofs.Review.Link
import Changelog.Proofs.Version.Sorting

/-! # What fixing does to a document

Fixing moves whole releases: they are sorted, each keeps its blocks, and only its heading is written anew.
Definitions are taken out, those of the links are added, and all of them are put at the end.
-/

namespace Changelog

namespace Review

variable {env : Environment} {path : Option Path} {options : Options} {root : Node} {project : Project} {fetch : Fetch}
  {directory : Path} {sorting : Sorting} {schedule : List Nat} {o arranged fixed : Outline} {ordered releases : List Release}
  {definitions : Definitions} {blocks : List Node}

/-- The project of the document at a path, if the path leads somewhere. -/
def projectOf (env : Environment) (path : Option Path) (options : Options) : Action Project := do
  findProject env options (← Action.ofExcept (projectDirectory env options path))

def fetchOf (env : Environment) (path : Option Path) (options : Options) : Fetch := fun range => do
  fetchFrom env.git options (← Action.ofExcept (projectDirectory env options path)) range

theorem projectOf_eq (h : projectDirectory env options path = .ok directory) :
    projectOf env path options = findProject env options directory := by
  rw [projectOf, h]
  exact pure_bind directory _

theorem fetchOf_eq (h : projectDirectory env options path = .ok directory) :
    fetchOf env path options = fetchFrom env.git options directory := by
  funext range
  rw [fetchOf, h]
  exact pure_bind directory _

theorem exists_projectDirectory (h : (projectOf env path options).outcome = .ok project) :
    ∃ directory, projectDirectory env options path = .ok directory := by
  obtain ⟨directory, hdirectory, -⟩ := Action.outcome_bind_eq_ok.mp h
  exact ⟨directory, hdirectory⟩

def fixedTitle : Option Node → Node
  | some title => if title.depth = some 1 then { title with children := Outline.titleNode.children } else Outline.titleNode
  | none => Outline.titleNode

theorem children_fixedTitle (title : Option Node) : (fixedTitle title).children = Outline.titleNode.children := by
  unfold fixedTitle
  split
  · split <;> rfl
  · rfl

theorem setTitle_eq (o : Outline) : o.setTitle = { o with heading := some (fixedTitle o.heading) } := by
  unfold Outline.setTitle fixedTitle
  cases o.heading with
  | none => rfl
  | some title =>
      simp only
      split <;> rfl

@[simp] theorem releases_setTitle (o : Outline) : o.setTitle.releases = o.releases := by rw [setTitle_eq]

@[simp] theorem definitions_setTitle (o : Outline) : o.setTitle.definitions = o.definitions := by rw [setTitle_eq]

def fixedOutline (o : Outline) (releases : List Release) (definitions : Definitions) : Outline :=
  { heading := some (fixedTitle o.heading), content := o.content, releases := releases.map relinked, definitions }

/-- Fixing an outline put its releases in an order, and came to releases that may have been filled, and to
    definitions. -/
structure IsFix (sorting : Sorting) (path : Option Path) (project : Project) (fetch : Fetch) (o : Outline)
    (ordered releases : List Release) (definitions : Definitions) : Prop where
  arranged : sorting.sort o.releases = .ok ordered
  reviewed : List.Forall₂ (fun r r' => (reviewRelease path true project fetch [] r).outcome = .ok r')
    (Release.relate ordered) releases
  sorted : Definitions.sort (o.definitions.addAll (linkNodes project releases)) = .ok definitions

theorem forall₂_isBackfilled {releases reviewed : List Release} {fix : Bool}
    (h : (reviewReleases schedule path fix project fetch releases).outcome = .ok reviewed) :
    List.Forall₂ (IsBackfilled project fetch) releases reviewed :=
  (outcome_reviewReleases_eq_ok.mp h).imp fun _ _ => isBackfilled_of_reviewRelease

theorem IsFix.backfilled (h : IsFix sorting path project fetch o ordered releases definitions) :
    List.Forall₂ (IsBackfilled project fetch) (Release.relate ordered) releases :=
  h.reviewed.imp fun _ _ => isBackfilled_of_reviewRelease

theorem IsBackfilled.version {r r' : Release} (h : IsBackfilled project fetch r r') :
    r'.version = r.version ∧ r'.previous = r.previous := by
  cases h <;> exact ⟨rfl, rfl⟩

theorem IsBackfilled.toReleaseHeading {r r' : Release} (h : IsBackfilled project fetch r r') :
    r'.toReleaseHeading = r.toReleaseHeading := by
  cases h <;> rfl

theorem relate_of_isBackfilled {releases reviewed : List Release}
    (h : List.Forall₂ (IsBackfilled project fetch) (Release.relate releases) reviewed) :
    Release.relate reviewed = reviewed :=
  Release.relate_eq_self (h.imp fun _ _ => IsBackfilled.version)

theorem IsFix.related (h : IsFix sorting path project fetch o ordered releases definitions) :
    Release.relate releases = releases :=
  relate_of_isBackfilled h.backfilled

/-- Arranging adds what is asked for and sorts the releases. -/
theorem outcome_arrange_eq_ok : (arrange env path options project root o).outcome = .ok arranged ↔
    ∃ added sorted, (addRequested env path project options.add root o.setTitle).outcome = .ok added ∧
      env.sorting.sort added.releases = .ok sorted ∧ arranged = { added with releases := sorted } := by
  unfold arrange
  simp only [Action.outcome_bind_eq_ok, Action.outcome_ofExcept, Action.pure_outcome]
  constructor
  · rintro ⟨added, hadded, sorted, hsorted, harranged⟩
    exact ⟨added, sorted, hadded, hsorted, (Except.ok.inj harranged).symm⟩
  · rintro ⟨added, sorted, hadded, hsorted, rfl⟩
    exact ⟨added, hadded, sorted, hsorted, rfl⟩

/-- Fixing arranges an outline, fills its releases, links them, and sorts the definitions. -/
theorem outcome_reviewOutline_eq_ok (fix : options.fix) :
    (reviewOutline env path options project fetch root o).outcome = .ok fixed ↔
      ∃ arranged reviewed definitions, (arrange env path options project root o).outcome = .ok arranged ∧
        (reviewReleases env.schedule path true project fetch (Release.relate arranged.releases)).outcome = .ok reviewed ∧
        Definitions.sort (arranged.definitions.addAll (linkNodes project reviewed)) = .ok definitions ∧
        fixed = { arranged with releases := reviewed.map relinked, definitions } := by
  unfold reviewOutline
  simp only [fix, if_true, Action.outcome_bind_eq_ok]
  constructor
  · rintro ⟨arranged, harranged, reviewed, hreviewed, hlink⟩
    simp only [link, linkReleases_eq (relate_of_isBackfilled (forall₂_isBackfilled hreviewed)), Action.outcome_bind_eq_ok,
        Action.outcome_ofExcept] at hlink
    obtain ⟨definitions, hdefinitions, hfixed⟩ := hlink
    exact ⟨arranged, reviewed, definitions, harranged, hreviewed, hdefinitions, (Except.ok.inj hfixed).symm⟩
  · rintro ⟨arranged, reviewed, definitions, harranged, hreviewed, hdefinitions, rfl⟩
    refine ⟨arranged, harranged, reviewed, hreviewed, ?_⟩
    simp only [link, linkReleases_eq (relate_of_isBackfilled (forall₂_isBackfilled hreviewed)), Action.outcome_bind_eq_ok,
        Action.outcome_ofExcept]
    exact ⟨definitions, hdefinitions, rfl⟩

theorem exists_reviewed_of_fixed (fix : options.fix)
    (harranged : (arrange env path options project root o).outcome = .ok arranged)
    (hfixed : (reviewOutline env path options project fetch root o).outcome = .ok fixed) :
    ∃ reviewed definitions,
      (reviewReleases env.schedule path true project fetch (Release.relate arranged.releases)).outcome = .ok reviewed ∧
        Definitions.sort (arranged.definitions.addAll (linkNodes project reviewed)) = .ok definitions ∧
        fixed = { arranged with releases := reviewed.map relinked, definitions } := by
  obtain ⟨_, reviewed, definitions, harranged', h⟩ := (outcome_reviewOutline_eq_ok fix).mp hfixed
  obtain rfl : arranged = _ := Except.ok.inj (harranged.symm.trans harranged')
  exact ⟨reviewed, definitions, h⟩

/-- Fixing leaves what the headings of the releases say, and their order. -/
theorem map_toReleaseHeading_fixed (fix : options.fix)
    (harranged : (arrange env path options project root o).outcome = .ok arranged)
    (hfixed : (reviewOutline env path options project fetch root o).outcome = .ok fixed) :
    fixed.releases.map (·.toReleaseHeading) = arranged.releases.map (·.toReleaseHeading) := by
  obtain ⟨reviewed, definitions, hreviewed, -, rfl⟩ := exists_reviewed_of_fixed fix harranged hfixed
  have kept : reviewed.map (·.toReleaseHeading) = (Release.relate arranged.releases).map (·.toReleaseHeading) :=
    map_eq_map_of_forall₂ ((forall₂_isBackfilled hreviewed).imp fun _ _ filled => filled.toReleaseHeading)
  rw [← Release.map_relate (fun _ _ => rfl) arranged.releases, ← kept, List.map_map]
  rfl

theorem map_version_fixed (fix : options.fix)
    (harranged : (arrange env path options project root o).outcome = .ok arranged)
    (hfixed : (reviewOutline env path options project fetch root o).outcome = .ok fixed) :
    fixed.releases.map (·.version) = arranged.releases.map (·.version) := by
  have said := congrArg (List.map ReleaseHeading.version) (map_toReleaseHeading_fixed fix harranged hfixed)
  rwa [List.map_map, List.map_map] at said

theorem outcome_reviewOutline_fix (fix : options.fix) (noAdd : options.add = none) :
    (reviewOutline env path options project fetch root o).outcome = .ok fixed ↔
      ∃ ordered releases definitions, IsFix env.sorting path project fetch o ordered releases definitions ∧
        fixed = fixedOutline o releases definitions := by
  have added : (addRequested env path project options.add root o.setTitle).outcome =
      .ok { o with heading := some (fixedTitle o.heading) } := by
    rw [noAdd, ← setTitle_eq]
    rfl
  simp only [outcome_reviewOutline_eq_ok fix, outcome_arrange_eq_ok, added, Except.ok.injEq, outcome_reviewReleases_eq_ok]
  constructor
  · rintro ⟨_, releases, definitions, ⟨_, ordered, rfl, hordered, rfl⟩, hreviewed, hdefinitions, rfl⟩
    exact ⟨ordered, releases, definitions, ⟨hordered, hreviewed, hdefinitions⟩, rfl⟩
  · rintro ⟨ordered, releases, definitions, h, rfl⟩
    exact ⟨_, releases, definitions, ⟨_, ordered, rfl, h.arranged, rfl⟩, h.reviewed, h.sorted, rfl⟩

/-! ## Documents -/

theorem exists_directory_of_run {result : Option (List Node)} (h : (run env path options root).outcome = .ok result) :
    ∃ directory, projectDirectory env options path = .ok directory := by
  obtain ⟨directory, hdirectory, -⟩ := Action.outcome_bind_eq_ok.mp h
  exact ⟨directory, hdirectory⟩

theorem run_of_not_isReviewed (hpath : isReviewed path = false)
    (hdirectory : projectDirectory env options path = .ok directory) :
    (run env path options root).outcome = .ok none ∧
      (run env path options root).diagnostics = (nameRemarks path root).map (Remark.diagnostic path) := by
  have named : run env path options root = (do
      remark path (nameRemarks path root)
      return none) := by
    rw [run, hdirectory]
    refine (pure_bind directory _).trans ?_
    simp only [hpath, Bool.not_false, if_true]
  rw [named, Action.diagnostics_bind (outcome_remark _), diagnostics_remark, Action.bind_outcome, outcome_remark]
  exact ⟨rfl, List.append_nil _⟩

theorem run_eq (hpath : isReviewed path) (hroot : root.kind = .root)
    (hdirectory : projectDirectory env options path = .ok directory) : run env path options root = (do
      let project ← findProject env options directory
      Action.log .debug .review
        (Text.ofString "Linting " ++ (path.map Path.text).getD (Text.ofString "None") ++ Text.ofString " with " ++
          Text.ofNat (Outline.ofNodes root.children).releases.length ++ Text.ofString " releases")
      let o ← reviewOutline env path options project (fetchOf env path options) root (Outline.ofNodes root.children)
      return if options.fix then some o.nodes else none) := by
  rw [run, hdirectory, fetchOf_eq hdirectory]
  refine (pure_bind directory _).trans ?_
  simp only [hpath, hroot, Bool.not_true, Bool.false_eq_true, if_false, ne_eq, not_true_eq_false]

theorem outcome_run (hpath : isReviewed path) (hroot : root.kind = .root)
    (hproject : (projectOf env path options).outcome = .ok project) :
    (run env path options root).outcome = (reviewOutline env path options project (fetchOf env path options) root
      (Outline.ofNodes root.children)).outcome.map fun fixed => if options.fix then some fixed.nodes else none := by
  obtain ⟨directory, hdirectory⟩ := exists_projectDirectory hproject
  rw [run_eq hpath hroot hdirectory, Action.outcome_bind (projectOf_eq hdirectory ▸ hproject),
    Action.outcome_bind (Action.outcome_log _ _ _), Action.bind_outcome]
  cases (reviewOutline _ _ _ _ _ _ _).outcome <;> rfl

theorem exists_findProject {result : Option (List Node)} (hpath : isReviewed path)
    (h : (run env path options root).outcome = .ok result) :
    root.kind = .root ∧ ∃ project, (projectOf env path options).outcome = .ok project := by
  obtain ⟨directory, hdirectory⟩ := exists_directory_of_run h
  by_cases hroot : root.kind = .root
  · rw [run_eq hpath hroot hdirectory] at h
    obtain ⟨project, hproject, -⟩ := Action.outcome_bind_eq_ok.mp h
    exact ⟨hroot, project, projectOf_eq hdirectory ▸ hproject⟩
  · simp [run, hdirectory, hpath, hroot, Except.bind] at h

theorem exists_fixed_of_run {result : Option (List Node)} (fix : options.fix) (hpath : isReviewed path)
    (h : (run env path options root).outcome = .ok result) : root.kind = .root ∧ ∃ project fixed,
      (projectOf env path options).outcome = .ok project ∧
      (reviewOutline env path options project (fetchOf env path options) root (Outline.ofNodes root.children)).outcome =
        .ok fixed ∧ result = some fixed.nodes := by
  obtain ⟨hroot, project, hproject⟩ := exists_findProject hpath h
  rw [outcome_run hpath hroot hproject, fix] at h
  cases hreview : (reviewOutline env path options project (fetchOf env path options) root
      (Outline.ofNodes root.children)).outcome with
  | error fault => simp [hreview, Except.map] at h
  | ok fixed =>
      rw [hreview] at h
      exact ⟨hroot, project, fixed, hproject, hreview, (Except.ok.inj h).symm⟩

theorem exists_fixed_of_findProject {result : Option (List Node)} (fix : options.fix) (hpath : isReviewed path)
    (hproject : (projectOf env path options).outcome = .ok project)
    (h : (run env path options root).outcome = .ok result) : ∃ fixed,
      (reviewOutline env path options project (fetchOf env path options) root (Outline.ofNodes root.children)).outcome =
        .ok fixed ∧ result = some fixed.nodes := by
  obtain ⟨-, _, fixed, hproject', hfixed⟩ := exists_fixed_of_run fix hpath h
  obtain rfl : project = _ := Except.ok.inj (hproject.symm.trans hproject')
  exact ⟨fixed, hfixed⟩

/-- A review that fixes a document comes to the blocks of the fixed outline. -/
theorem outcome_run_fix (fix : options.fix) (noAdd : options.add = none) :
    (run env path options root).outcome = .ok (some blocks) ↔
      isReviewed path ∧ root.kind = .root ∧
        ∃ project, (projectOf env path options).outcome = .ok project ∧
        ∃ ordered releases definitions,
          IsFix env.sorting path project (fetchOf env path options) (Outline.ofNodes root.children) ordered releases
            definitions ∧
          blocks = (fixedOutline (Outline.ofNodes root.children) releases definitions).nodes := by
  constructor
  · intro h
    cases hpath : isReviewed path with
    | false =>
        obtain ⟨directory, hdirectory⟩ := exists_directory_of_run h
        rw [(run_of_not_isReviewed hpath hdirectory).1] at h
        cases h
    | true =>
        obtain ⟨hroot, project, fixed, hproject, hfixed, hblocks⟩ := exists_fixed_of_run fix hpath h
        obtain ⟨ordered, releases, definitions, hfix, rfl⟩ := (outcome_reviewOutline_fix fix noAdd).mp hfixed
        exact ⟨rfl, hroot, project, hproject, ordered, releases, definitions, hfix, Option.some.inj hblocks⟩
  · rintro ⟨hpath, hroot, project, hproject, ordered, releases, definitions, h, rfl⟩
    rw [outcome_run hpath hroot hproject,
      (outcome_reviewOutline_fix fix noAdd).mpr ⟨ordered, releases, definitions, h, rfl⟩, fix]
    rfl

/-- The outline with its title and its links, and everything at its place. -/
def linkedOutline (project : Project) (o : Outline) : Outline :=
  fixedOutline o (Release.relate o.releases) (o.definitions.addAll (linkNodes project (Release.relate o.releases)))

/-- An outline that is in order, also when it is linked, and in which no release is empty. -/
structure IsOrdered (project : Project) (o : Outline) : Prop where
  comparable : Version.anyClash (o.releases.filterMap Release.version?) = false
  ordered : o.releases.Pairwise fun a b => (Release.newestFirst a b).isLE
  filled : ∀ r ∈ Release.relate o.releases, r.isEmpty = false
  known : Version.anyClash ((linkedOutline project o).definitions.map (·.1)) = false
  sorted : (linkedOutline project o).definitions.Pairwise fun a b => (Version.newestFirst a.1 b.1).isLE

instance (project : Project) (o : Outline) : Decidable (IsOrdered project o) :=
  decidable_of_iff (Version.anyClash (o.releases.filterMap Release.version?) = false ∧
      (o.releases.Pairwise fun a b => (Release.newestFirst a b).isLE) ∧
      (∀ r ∈ Release.relate o.releases, r.isEmpty = false) ∧
      Version.anyClash ((linkedOutline project o).definitions.map (·.1)) = false ∧
      (linkedOutline project o).definitions.Pairwise fun a b => (Version.newestFirst a.1 b.1).isLE)
    ⟨fun ⟨comparable, ordered, filled, known, sorted⟩ => ⟨comparable, ordered, filled, known, sorted⟩,
      fun ⟨comparable, ordered, filled, known, sorted⟩ => ⟨comparable, ordered, filled, known, sorted⟩⟩

theorem IsOrdered.isSorted (h : IsOrdered project o) : Release.isSorted o.releases = .ok true :=
  isSortedBy_of_pairwise (fun _ ha _ hb => Release.compareNewest_eq_ok h.comparable ha hb) h.ordered

theorem IsOrdered.isFix (h : IsOrdered project o) :
    IsFix sorting path project fetch o o.releases (Release.relate o.releases) (linkedOutline project o).definitions where
  arranged := sorting.keeps h.isSorted
  reviewed := forall₂_reviewRelease_of_filled h.filled
  sorted := by
    show Version.sortNewest (·.1) (linkedOutline project o).definitions = _
    rw [Version.sortNewest, if_neg (Bool.eq_false_iff.mp h.known), stableSort_of_pairwise h.sorted]

/-- A document in order is linked, and nothing else. -/
theorem outcome_run_of_isOrdered (fix : options.fix) (noAdd : options.add = none) (hpath : isReviewed path)
    (hroot : root.kind = .root)
    (hproject : (projectOf env path options).outcome = .ok project)
    (h : IsOrdered project (Outline.ofNodes root.children)) :
    (run env path options root).outcome = .ok (some (linkedOutline project (Outline.ofNodes root.children)).nodes) :=
  (outcome_run_fix fix noAdd).mpr ⟨hpath, hroot, project, hproject, _, _, _, h.isFix, rfl⟩

theorem isSome_of_run_fix {result : Option (List Node)} (fix : options.fix) (hpath : isReviewed path)
    (h : (run env path options root).outcome = .ok result) : result.isSome := by
  obtain ⟨_, _, _, _, _, rfl⟩ := exists_fixed_of_run fix hpath h
  rfl

/-! ## Where everything goes -/

/-- What becomes of a release: its heading may have other inline nodes, and if nothing stood under it, the groups of
    the commits in its gap may stand there now. -/
structure IsRewritten (project : Project) (fetch : Fetch) (r : Release) (s : Stretch) : Prop where
  heading : ∃ children, s.heading = { r.heading with children }
  blocks : s.blocks = r.stretch.blocks ∨ r.stretch.blocks = [] ∧ ∃ version previous gap commits,
    fillable? true r = some (version, previous) ∧ gapOf project version previous = .ok gap ∧
      (fetch gap.range).outcome = .ok commits ∧ s.blocks = Section.nodesAll (groupsOf commits)

theorem stretch_relinked (r : Release) :
    ∃ children, (relinked r).stretch = ⟨{ r.heading with children }, r.stretch.blocks⟩ := ⟨_, rfl⟩

theorem stretch_withGroups (groups : List Section) (r : Release) :
    (withGroups groups r).stretch = ⟨r.heading, r.stretch.blocks ++ Section.nodesAll groups⟩ := by
  simp [withGroups, Release.stretch, Release.mapBody, Release.heading, Section.nodesAll_append]

theorem isEmpty_iff_blocks_stretch {r : Release} : r.isEmpty ↔ r.stretch.blocks = [] := by
  simp only [Release.isEmpty, Section.isEmpty, Bool.and_eq_true, List.isEmpty_iff, Release.stretch, List.append_eq_nil_iff]
  cases r.body.children with
  | nil => simp [Section.nodesAll]
  | cons s rest => simp [Section.nodesAll, Section.nodes_eq]

theorem IsBackfilled.isRewritten {r r' : Release} (h : IsBackfilled project fetch r r') :
    IsRewritten project fetch r (relinked r').stretch := by
  cases h with
  | kept => exact ⟨⟨_, rfl⟩, Or.inl rfl⟩
  | filled _ fillable hgap hfetch =>
      have empty := isEmpty_iff_blocks_stretch.mp (isEmpty_of_fillable? fillable).2
      refine ⟨⟨_, rfl⟩, Or.inr ⟨empty, _, _, _, _, fillable, hgap, hfetch, ?_⟩⟩
      obtain ⟨children, hstretch⟩ := stretch_relinked (withGroups (groupsOf _) r)
      rw [hstretch, stretch_withGroups, empty, List.nil_append]

theorem isKeyed_of_sort {unsorted definitions : Definitions} (h : unsorted.sort = .ok definitions)
    (keyed : unsorted.IsKeyed) :
    definitions.IsKeyed ∧ IsStableSort (fun a b => Version.newestFirst a.1 b.1) unsorted definitions := by
  unfold Definitions.sort Version.sortNewest at h
  split at h
  · contradiction
  · cases h
    exact ⟨keyed.perm (stableSort_perm unsorted), isStableSort_on (fun a : Text × Node => a.1) isTransitiveOn_of_transCmp⟩

theorem isKeyed_definitions_ofNodes (blocks : List Node) : Definitions.IsKeyed (Outline.ofNodes blocks).definitions := by
  rw [Outline.ofNodes_eq_ofLayout]
  exact Definitions.isKeyed_addAll blocks .nil

/-- A stretch of a document as a release, by its place among the stretches. -/
def placed (s : Stretch × Nat) : Release := Release.ofStretch s.2 s.1

theorem releases_ofNodes (blocks : List Node) :
    (Outline.ofNodes blocks).releases = (Layout.ofNodes blocks).releases.zipIdx.map placed := by
  rw [Outline.ofNodes_eq_ofLayout]
  exact List.mapIdx_eq_zipIdx_map

theorem index_lt_of_mem_ofNodes {r : Release} (h : r ∈ (Outline.ofNodes blocks).releases) :
    r.index < (Outline.ofNodes blocks).releases.length := by
  rw [releases_ofNodes, List.length_map, List.length_zipIdx] at *
  obtain ⟨⟨s, i⟩, hs, rfl⟩ := List.mem_map.mp h
  exact List.snd_lt_of_mem_zipIdx hs

/-- The releases of a document newest first, as stretches of it. -/
def sortedStretches (blocks : List Node) : List (Stretch × Nat) :=
  stableSort (fun s t => Release.newestFirst (placed s) (placed t)) (Layout.ofNodes blocks).releases.zipIdx

theorem stableSort_releases_ofNodes (blocks : List Node) :
    stableSort Release.newestFirst (Outline.ofNodes blocks).releases = (sortedStretches blocks).map placed := by
  rw [releases_ofNodes, stableSort_map, sortedStretches]

theorem linkNodes_eq_of_isBackfilled {releases reviewed : List Release}
    (h : List.Forall₂ (IsBackfilled project fetch) releases reviewed) :
    linkNodes project reviewed = linkNodes project releases := by
  have links : reviewed.map link? = releases.map link? :=
    map_eq_map_of_forall₂ (h.imp fun _ _ hr => link?_congr hr.version.1 hr.version.2)
  rw [linkNodes, linkNodes, filterMap_eq_of_map_eq links]

/-- The blocks are those of a document, put in order: the title, what stood in front of the releases, the releases
    newest first, and the definitions newest first. -/
structure IsRearranged (env : Environment) (path : Option Path) (options : Options) (root : Node) (project : Project)
    (sorted : List (Stretch × Nat)) (rewritten : List Stretch) (definitions : Definitions) (blocks : List Node) :
    Prop where
  found : (projectOf env path options).outcome = .ok project
  /-- The parts of the source are all its blocks but the definitions, cut where a release begins. -/
  complete : (Layout.ofNodes root.children).nodes = root.children.filter (!·.isNamed)
  sound : (Layout.ofNodes root.children).IsSound
  inOrder : IsStableSort (fun s t => Release.newestFirst (placed s) (placed t))
    (Layout.ofNodes root.children).releases.zipIdx sorted
  related : (Release.relate (sorted.map placed)).map Release.stretch = sorted.map (·.1)
  each : List.Forall₂ (IsRewritten project (fetchOf env path options)) (Release.relate (sorted.map placed)) rewritten
  keyed : definitions.IsKeyed
  ordered : definitions.Pairwise fun a b => (Version.newestFirst a.1 b.1).isLE
  /-- Under each key stands the last definition of the source, or of the links if one has this key. -/
  last : ∀ key, definitions.find? key =
    Definitions.lastOf key (root.children ++ linkNodes project (Release.relate (sorted.map placed)))
  written : blocks = fixedTitle (Layout.ofNodes root.children).title :: (Layout.ofNodes root.children).preamble ++
    rewritten.flatMap Stretch.nodes ++ definitions.map (·.2)

/-- A document that is fixed keeps all its blocks: nothing but whole releases and definitions changes its place. -/
theorem run_fix_rearranges (fix : options.fix) (noAdd : options.add = none)
    (transitive : IsTransitiveOn Release.newestFirst (Outline.ofNodes root.children).releases)
    (completed : (run env path options root).outcome = .ok (some blocks)) :
    ∃ project sorted rewritten definitions,
      IsRearranged env path options root project sorted rewritten definitions blocks := by
  obtain ⟨_, _, project, hproject, ordered, releases, definitions, h, rfl⟩ := (outcome_run_fix fix noAdd).mp completed
  have filled := h.backfilled
  rw [← (env.sorting.sorts h.arranged transitive).1, stableSort_releases_ofNodes] at filled
  have unsorted : (Outline.ofNodes root.children).definitions.addAll (linkNodes project releases) =
      Definitions.addAll [] (root.children ++ linkNodes project releases) := by
    rw [Outline.ofNodes_eq_ofLayout, Definitions.addAll_append]
    rfl
  have keyed : Definitions.IsKeyed (Definitions.addAll [] (root.children ++ linkNodes project releases)) :=
    Definitions.isKeyed_addAll _ .nil
  obtain ⟨hkeyed, hsorted⟩ := isKeyed_of_sort (unsorted ▸ h.sorted) keyed
  refine ⟨project, sortedStretches root.children, releases.map fun r => (relinked r).stretch, definitions, ?_⟩
  exact {
    found := hproject
    complete := Layout.nodes_ofNodes _
    sound := Layout.isSound_ofNodes _
    inOrder := isStableSort_on placed (releases_ofNodes root.children ▸ transitive)
    related := by
      rw [Release.map_relate (fun _ _ => rfl), List.map_map]
      exact List.map_congr_left fun s _ => Release.stretch_ofStretch s.2 s.1
    each := List.forall₂_map_right_iff.mpr (filled.imp fun _ _ hr => hr.isRewritten)
    keyed := hkeyed
    ordered := hsorted.ordered
    last := by
      intro key
      rw [← linkNodes_eq_of_isBackfilled filled, Definitions.find?_perm hkeyed.nodup hsorted.perm,
        Definitions.find?_addAll]
      simp [Definitions.find?]
    written := by
      simp only [Outline.nodes, fixedOutline, Outline.ofNodes_eq_ofLayout, Outline.ofLayout, List.flatMap_map,
        Release.nodes_stretch, Option.toList_some, List.singleton_append] }

/-! ### A document with releases in the wrong order -/

section

open Text (ofString)

def sampleEnvironment : Environment :=
  { git := fun _ => .notStarted [], files := [], directory := default, today := ofString "2024-03-03" }

def sampleOptions : Options :=
  { fix := true, repository := some (ofString "a/b"), version := some (ofString "1.0.0"), tags := some [] }

def sampleProject : Project := ⟨[], ofString "https://github.com/a/b", ofString "1.0.0"⟩

theorem found_sample : (projectOf sampleEnvironment none sampleOptions).outcome = .ok sampleProject := by decide +kernel

def sampleRoot : Node :=
  { kind := .root
    children := [
      Node.heading 2 [Node.ofText (ofString "1.0.0 - 2024-01-01")],
      Node.definition (ofString "a") (ofString "a") (ofString "b"),
      Node.paragraph [Node.ofText (ofString "First.")],
      Node.heading 2 [Node.ofText (ofString "1.1.0 - 2024-02-02")],
      Node.paragraph [Node.ofText (ofString "Second.")]] }

def sampleBlocks : List Node := [
  Node.heading 1 [Node.ofText (ofString "Changelog")],
  Node.heading 2 [Node.linkReference (ofString "1.1.0") (ofString "1.1.0") .shortcut [Node.ofText (ofString "1.1.0")],
    Node.ofText (ofString " - 2024-02-02")],
  Node.paragraph [Node.ofText (ofString "Second.")],
  Node.heading 2 [Node.ofText (ofString "1.0.0 - 2024-01-01")],
  Node.paragraph [Node.ofText (ofString "First.")],
  Node.definition (ofString "1.1.0") (ofString "1.1.0") (ofString "https://github.com/a/b/compare/v1.0.0...v1.1.0"),
  Node.definition (ofString "a") (ofString "a") (ofString "b")]

theorem outcome_run_sample :
    (run sampleEnvironment none sampleOptions sampleRoot).outcome = .ok (some sampleBlocks) := by
  let o := Outline.ofNodes sampleRoot.children
  let releases := Release.relate o.releases.reverse
  let unsorted := o.definitions.addAll (linkNodes sampleProject releases)
  have fixes : IsFix .merging none sampleProject (fetchOf sampleEnvironment none sampleOptions) o o.releases.reverse releases
      unsorted.reverse := {
    arranged := by
      have reversed : stableSort Release.newestFirst o.releases = o.releases.reverse :=
        (stableSort_pair _ _).trans (if_pos (by decide +kernel))
      rw [Sorting.sort_eq_ok (by decide +kernel) (Release.isTransitiveOn_newestFirst (by decide +kernel)), reversed]
    reviewed := forall₂_reviewRelease_of_filled (by decide +kernel)
    sorted := by
      have comparable : Version.anyClash (unsorted.map (·.1)) = false := by decide +kernel
      have reversed : stableSort (fun a b => Version.newestFirst a.1 b.1) unsorted = unsorted.reverse :=
        (stableSort_pair _ _).trans (if_pos (by decide +kernel))
      show Version.sortNewest (·.1) unsorted = .ok unsorted.reverse
      rw [Version.sortNewest, comparable, reversed]
      rfl }
  exact (outcome_run_fix rfl rfl).mpr ⟨by decide +kernel, by decide +kernel, sampleProject, by decide +kernel,
    o.releases.reverse, releases, unsorted.reverse, fixes, by decide +kernel⟩

theorem run_fix_rearranges_sample : ∃ project sorted rewritten definitions,
    IsRearranged sampleEnvironment none sampleOptions sampleRoot project sorted rewritten definitions sampleBlocks :=
  run_fix_rearranges rfl rfl (Release.isTransitiveOn_newestFirst (by decide +kernel)) outcome_run_sample

end

end Review

end Changelog
