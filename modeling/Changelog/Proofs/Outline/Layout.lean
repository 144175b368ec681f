import Changelog.Outline.Basic

/-! # How a document is laid out

A document can be described without a cursor: definitions taken out, a heading of first level that comes before
everything else is its title, the blocks up to the next heading are its preamble, and each release reaches from
its heading up to the next heading of first or second level. The outline that the cursor builds is the one that
this description gives.
-/

namespace Changelog

namespace Node

/-- Is this a definition that can be found by its identifier? -/
def isNamed (node : Node) : Bool := node.kind = .definition && node.identifier.isSome

/-- Is this a heading that begins a release wherever it stands? -/
def startsRelease (node : Node) : Bool := node.headingDepth?.any (· ≤ 2)

theorem kind_of_isNamed {node : Node} (h : node.isNamed) : node.kind = .definition := by
  simp only [isNamed, Bool.and_eq_true, decide_eq_true_eq] at h
  exact h.1

theorem headingDepth?_of_isNamed {node : Node} (h : node.isNamed) : node.headingDepth? = none := by
  simp [headingDepth?, kind_of_isNamed h]

end Node

namespace Definitions

/-- Sets a definition under its own identifier. -/
def add (definitions : Definitions) (block : Node) : Definitions :=
  match block.identifier with
  | some identifier => definitions.insert (Text.lowercase identifier) block
  | none => definitions

def addAll (definitions : Definitions) (blocks : List Node) : Definitions :=
  (blocks.filter Node.isNamed).foldl add definitions

end Definitions

/-- A release as it stands in a document: its heading, and the blocks up to the next release. -/
structure Stretch where
  heading : Node
  blocks : List Node
  deriving DecidableEq

namespace Stretch

def nodes (s : Stretch) : List Node := s.heading :: s.blocks

/-- The blocks up to the next release, and the releases from there on. -/
def cut : List Node → List Node × List Stretch
  | [] => ([], [])
  | block :: rest =>
    if block.startsRelease then ([], ⟨block, (cut rest).1⟩ :: (cut rest).2)
    else (block :: (cut rest).1, (cut rest).2)

/-- The blocks up to the first heading, and the releases from there on. The first heading begins a release at
    any level. -/
def cutFirst : List Node → List Node × List Stretch
  | [] => ([], [])
  | block :: rest =>
    if block.headingDepth?.isSome then ([], ⟨block, (cut rest).1⟩ :: (cut rest).2)
    else (block :: (cutFirst rest).1, (cutFirst rest).2)

end Stretch

/-- The parts of a document without its definitions. -/
structure Layout where
  title : Option Node
  preamble : List Node
  releases : List Stretch
  deriving DecidableEq

namespace Layout

/-- The layout of blocks among which there are no definitions. -/
def ofUnnamed : List Node → Layout
  | [] => ⟨none, [], []⟩
  | first :: rest =>
    if first.headingDepth? = some 1 then ⟨some first, (Stretch.cutFirst rest).1, (Stretch.cutFirst rest).2⟩
    else ⟨none, (Stretch.cutFirst (first :: rest)).1, (Stretch.cutFirst (first :: rest)).2⟩

def ofNodes (blocks : List Node) : Layout := ofUnnamed (blocks.filter (!·.isNamed))

end Layout

namespace Section

def add (place : Section × List Nat) (block : Node) : Section × List Nat :=
  match block.headingDepth? with
  | some depth =>
    let way := place.2.take (depth - 3)
    (place.1.modifyAt (addChild block) way, way ++ [((place.1.at? way).map (·.children.length)).getD 0])
  | none => (place.1.modifyAt (addBlock block) place.2, place.2)

def ofBlocks (heading : Node) (blocks : List Node) : Section := (blocks.foldl add ({ heading }, [])).1

end Section

namespace Release

def ofStretch (index : Nat) (s : Stretch) : Release :=
  { ofHeading index s.heading with body := Section.ofBlocks s.heading s.blocks }

end Release

namespace Outline

/-- The outline of a layout with the given definitions. -/
def ofLayout (layout : Layout) (definitions : Definitions) : Outline :=
  { heading := layout.title, content := layout.preamble
    releases := layout.releases.mapIdx Release.ofStretch, definitions }

theorem addAll_cons (place : Outline × Cursor) (block : Node) (blocks : List Node) :
    addAll place (block :: blocks) = addAll (place.1.add place.2 block) blocks := rfl

/-! ## Inside a release -/

section

variable {o : Outline} {earlier : List Release} {r : Release}

theorem index_lt_concat (hr : r.index = earlier.length) (hearlier : ∀ x ∈ earlier, x.index < earlier.length) :
    ∀ x ∈ earlier ++ [r], x.index < (earlier ++ [r]).length := by
  intro x hx
  rw [List.length_append, List.length_singleton]
  rcases List.mem_append.mp hx with hx | hx
  · exact Nat.lt_succ_of_lt (hearlier x hx)
  · rw [List.mem_singleton.mp hx, hr]
    exact Nat.lt_succ_self _

theorem modifyRelease_last (f : Release → Release) (hr : r.index = earlier.length)
    (hearlier : ∀ x ∈ earlier, x.index < earlier.length) :
    modifyRelease earlier.length f { o with releases := earlier ++ [r] } = { o with releases := earlier ++ [f r] } := by
  simp only [modifyRelease, List.map_append, List.map_cons, List.map_nil, hr, beq_self_eq_true, if_true]
  congr 2
  refine Eq.trans (List.map_congr_left ?_) (List.map_id earlier)
  intro x hx
  have : (x.index == earlier.length) = false := by simpa using Nat.ne_of_lt (hearlier x hx)
  simp [this]

theorem release?_last (hr : r.index = earlier.length) (hearlier : ∀ x ∈ earlier, x.index < earlier.length) :
    release? { o with releases := earlier ++ [r] } earlier.length = some r := by
  have none : earlier.find? (fun x => x.index == earlier.length) = none := by
    rw [List.find?_eq_none]
    intro x hx
    simpa using Nat.ne_of_lt (hearlier x hx)
  simp [release?, List.find?_append, none, hr]

/-- In the last release, a block that begins no other one goes to the section of that release. -/
theorem add_inside (hr : r.index = earlier.length) (hearlier : ∀ x ∈ earlier, x.index < earlier.length)
    (way : List Nat) {block : Node} (unnamed : block.isNamed = false) (inner : block.startsRelease = false) :
    add { o with releases := earlier ++ [r] } (.inside earlier.length way) block =
      ({ o with releases := earlier ++ [{ r with body := (Section.add (r.body, way) block).1 }] },
        .inside earlier.length (Section.add (r.body, way) block).2) := by
  unfold add
  cases hd : block.headingDepth? with
  | some depth =>
      have deep : ¬depth ≤ 2 := by simpa [Node.startsRelease, hd] using inner
      simp only [Cursor.climb, if_neg deep, openAt, modifyRelease_last _ hr hearlier, section?,
        release?_last hr hearlier, Option.bind_some, Section.add, hd, Release.mapBody]
  | none =>
      have plain : addBlock block { o with releases := earlier ++ [r] } (.inside earlier.length way) =
          modifyRelease earlier.length (Release.mapBody (Section.modifyAt (Section.addBlock block) way))
            { o with releases := earlier ++ [r] } := by
        unfold addBlock
        split
        next identifier hkind hid => simp [Node.isNamed, hkind, hid] at unnamed
        next => rfl
      simp only [plain, modifyRelease_last _ hr hearlier, Section.add, hd, Release.mapBody]

theorem add_named (o : Outline) (cursor : Cursor) {block : Node} (named : block.isNamed) :
    o.add cursor block = ({ o with definitions := o.definitions.add block }, cursor) := by
  have hd := Node.headingDepth?_of_isNamed named
  simp only [Node.isNamed, Bool.and_eq_true, decide_eq_true_eq, Option.isSome_iff_exists] at named
  obtain ⟨hkind, identifier, hid⟩ := named
  simp [add, hd, addBlock, hkind, hid, Definitions.add]

theorem add_startsRelease (o : Outline) (hne : o.releases ≠ []) (index : Nat) (way : List Nat) {block : Node}
    (starts : block.startsRelease) :
    o.add (.inside index way) block = (o.addRelease block, .inside o.releases.length []) := by
  unfold add
  cases hd : block.headingDepth? with
  | none => simp [Node.startsRelease, hd] at starts
  | some depth =>
      have shallow : depth ≤ 2 := by simpa [Node.startsRelease, hd] using starts
      have full : o.isEmpty = false := by simp [isEmpty, hne]
      simp [Cursor.climb, shallow, openAt, takesTitle, full]

theorem addAll_inside (blocks : List Node) (hr : r.index = earlier.length)
    (hearlier : ∀ x ∈ earlier, x.index < earlier.length) (way : List Nat) :
    (addAll ({ o with releases := earlier ++ [r] }, .inside earlier.length way) blocks).1 =
      { o with
        releases := earlier ++
          { r with body := ((Stretch.cut (blocks.filter (!·.isNamed))).1.foldl Section.add (r.body, way)).1 } ::
          (Stretch.cut (blocks.filter (!·.isNamed))).2.mapIdx fun i s => Release.ofStretch (earlier.length + (i + 1)) s
        definitions := o.definitions.addAll blocks } := by
  induction blocks generalizing o earlier r way with
  | nil => simp [addAll, Stretch.cut, Definitions.addAll]
  | cons block blocks ih =>
      rw [addAll_cons]
      -- a definition leaves the way as it is, the heading of a release begins a new one, other blocks go on with it
      by_cases named : block.isNamed
      · rw [add_named _ _ named, ih (o := { o with definitions := o.definitions.add block }) hr hearlier way]
        simp [named, Definitions.addAll]
      · have unnamed : block.isNamed = false := by simpa using named
        by_cases starts : block.startsRelease
        · have later := ih (o := o) (r := Release.ofHeading (earlier ++ [r]).length block) rfl (index_lt_concat hr hearlier) []
          have shift : ∀ i, (earlier ++ [r]).length + (i + 1) = earlier.length + (i + 1 + 1) := by
            intro i
            rw [List.length_append, List.length_singleton]
            omega
          simp only [shift] at later
          rw [add_startsRelease _ (by simp) _ _ starts, addRelease, later]
          simp only [unnamed, Bool.not_false, List.filter_cons_of_pos, Stretch.cut, starts, if_true, List.foldl_nil,
            List.mapIdx_cons, List.append_assoc, List.singleton_append, List.length_append, List.length_singleton,
            Nat.zero_add, Definitions.addAll, Bool.false_eq_true, not_false_eq_true, List.filter_cons_of_neg]
          rfl
        · have inner : block.startsRelease = false := by simpa using starts
          rw [add_inside hr hearlier way unnamed inner,
            ih (r := { r with body := (Section.add (r.body, way) block).1 }) hr hearlier]
          simp [unnamed, Stretch.cut, inner, Definitions.addAll]

end

theorem addAll_first (o : Outline) (heading : Node) (blocks : List Node) :
    (addAll ({ o with releases := [Release.ofHeading 0 heading] }, .inside 0 []) blocks).1 =
      { o with
        releases := ((⟨heading, (Stretch.cut (blocks.filter (!·.isNamed))).1⟩ : Stretch) ::
          (Stretch.cut (blocks.filter (!·.isNamed))).2).mapIdx Release.ofStretch
        definitions := o.definitions.addAll blocks } := by
  have first := @addAll_inside o [] (Release.ofHeading 0 heading) blocks rfl (by simp) []
  simp only [List.nil_append, List.length_nil, Nat.zero_add] at first
  rw [first, List.mapIdx_cons]
  rfl

/-! ## In front of the releases -/

theorem add_root_heading {o : Outline} (empty : o.releases = []) {block : Node} {depth : Nat}
    (hd : block.headingDepth? = some depth) (untitled : o.takesTitle depth = false) :
    o.add .root block = ({ o with releases := [Release.ofHeading 0 block] }, .inside 0 []) := by
  simp [add, hd, Cursor.climb, openAt, untitled, addRelease, empty]

theorem add_root_plain (o : Outline) {block : Node} (unnamed : block.isNamed = false)
    (hd : block.headingDepth? = none) : o.add .root block = ({ o with content := o.content ++ [block] }, .root) := by
  simp only [add, hd, addBlock]
  split
  next identifier hkind hid => simp [Node.isNamed, hkind, hid] at unnamed
  next => rfl

theorem addAll_root (blocks : List Node) (o : Outline) (empty : o.releases = [])
    (titled : ∀ depth, o.takesTitle depth = false) :
    (addAll (o, .root) blocks).1 =
      { o with
        content := o.content ++ (Stretch.cutFirst (blocks.filter (!·.isNamed))).1
        releases := (Stretch.cutFirst (blocks.filter (!·.isNamed))).2.mapIdx Release.ofStretch
        definitions := o.definitions.addAll blocks } := by
  induction blocks generalizing o with
  | nil => simp [addAll, Stretch.cutFirst, Definitions.addAll, ← empty]
  | cons block blocks ih =>
      rw [addAll_cons]
      by_cases named : block.isNamed
      · rw [add_named _ _ named, ih { o with definitions := o.definitions.add block } empty titled]
        simp [named, Definitions.addAll]
      · have unnamed : block.isNamed = false := by simpa using named
        cases hd : block.headingDepth? with
        | some depth =>
            rw [add_root_heading empty hd (titled depth), addAll_first]
            simp [unnamed, Stretch.cutFirst, hd, Definitions.addAll]
        | none =>
            rw [add_root_plain o unnamed hd, ih { o with content := o.content ++ [block] } empty
              (by simp [takesTitle, isEmpty])]
            simp [unnamed, Stretch.cutFirst, hd, Definitions.addAll]

/-- The cursor builds the outline of the layout, with every definition under its identifier. -/
theorem ofNodes_eq_ofLayout (blocks : List Node) :
    ofNodes blocks = ofLayout (Layout.ofNodes blocks) (Definitions.addAll [] blocks) := by
  suffices h : ∀ definitions : Definitions, (addAll ({ definitions }, .root) blocks).1 =
      ofLayout (Layout.ofNodes blocks) (definitions.addAll blocks) from h []
  induction blocks with
  | nil => intro definitions; rfl
  | cons block blocks ih =>
      intro definitions
      rw [addAll_cons]
      by_cases named : block.isNamed
      · rw [add_named _ _ named, ih]
        simp [Layout.ofNodes, named, Definitions.addAll]
      · have unnamed : block.isNamed = false := by simpa using named
        by_cases title : block.headingDepth? = some 1
        · have taken : add { definitions } .root block = ({ heading := some block, definitions }, .root) := by
            simp [add, title, Cursor.climb, openAt, takesTitle, isEmpty]
          rw [taken, addAll_root blocks _ rfl (by simp [takesTitle])]
          simp [ofLayout, Layout.ofNodes, Layout.ofUnnamed, unnamed, title, Definitions.addAll]
        · cases hd : block.headingDepth? with
          | some depth =>
              have deeper : depth ≠ 1 := fun h => title (h ▸ hd)
              have untitled : takesTitle { definitions } depth = false := by simp [takesTitle, deeper]
              rw [add_root_heading rfl hd untitled, addAll_first]
              simp [ofLayout, Layout.ofNodes, Layout.ofUnnamed, unnamed, hd, deeper, Stretch.cutFirst, Definitions.addAll]
          | none =>
              rw [add_root_plain _ unnamed hd, addAll_root blocks _ rfl (by simp [takesTitle, isEmpty])]
              simp [ofLayout, Layout.ofNodes, Layout.ofUnnamed, unnamed, hd, Stretch.cutFirst, Definitions.addAll]

end Outline

end Changelog
