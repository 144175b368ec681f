import Changelog.Project.Manifest
import Mathlib.Data.List.Induction

/-! # Manifests that are not of the usual shape

Reading a manifest is meant to end with texts or with the fault that the file cannot be read. It does so just for the files
that cannot be decoded and for those whose data have tables where tables are looked into, and texts where a name, a version
and an address are declared. All other data is taken as it is, or it has no such part.
-/

namespace Changelog

namespace Data

variable {key other : Text} {value : Data} {fields : List (Text × Data)}

theorem lookup?_cons (key : Text) (field : Text × Data) (fields : List (Text × Data)) :
    lookup? key (field :: fields) = if field.1 = key then some field.2 else lookup? key fields := by
  by_cases h : field.1 = key <;> simp [lookup?, h]

theorem lookup?_insert (key other : Text) (value : Data) (fields : List (Text × Data)) :
    lookup? key (insert other value fields) = if other = key then some value else lookup? key fields := by
  induction fields with
  | nil => exact lookup?_cons key (other, value) []
  | cons field fields ih =>
      rw [insert]
      split
      next same =>
        rw [lookup?_cons, lookup?_cons, same]
        split <;> rfl
      next different =>
        rw [lookup?_cons, lookup?_cons, ih]
        split
        next hfield => rw [if_neg fun hother => different (hfield.trans hother.symm)]
        next => rfl

end Data

namespace Manifest

open Text (ofString)

variable {path : Path} {data value : Data} {key : Text} {fields project urls : List (Text × Data)} {m : Manifest}

/-! ## What a manifest is meant to be -/

def IsTextOrNull : Data → Prop
  | .null | .text _ => True
  | _ => False

instance : DecidablePred IsTextOrNull
  | .null | .text _ => .isTrue trivial
  | .bool _ | .int _ | .decimal _ | .moment _ | .list _ | .object _ => .isFalse id

/-- Is all that a manifest declares a text or left out? -/
structure IsTyped (m : Manifest) : Prop where
  name : IsTextOrNull m.name
  version : IsTextOrNull m.version
  repository : IsTextOrNull m.repository

/-- Does reading the manifest at a path end with texts, or with the fault that it cannot be read? -/
def EndsWell (path : Path) (answer : Except Fault Manifest) : Prop :=
  (∃ m, answer = .ok m ∧ m.IsTyped) ∨ ∃ reason, answer = .error (.setup (.manifestUnreadable path.text reason))

/-- Is what stands under a key a text, or is the key left out? -/
def DeclaresText (key : String) (fields : List (Text × Data)) : Prop :=
  ∀ value, Data.lookup? key.toList fields = some value → IsTextOrNull value

def HasTable (key : String) (fields table : List (Text × Data)) : Prop :=
  Data.lookup? key.toList fields = some (.object table) ∨ Data.lookup? key.toList fields = none ∧ table = []

/-- Is the value the address of the repository? It is the last one under the preferred key of those that are there in some
    case. -/
def IsAddress (urls : List (Text × Data)) (value : Data) : Prop :=
  ∃ preferred key others front name back, repositoryKeys = preferred ++ key :: others ∧
    urls = front ++ (name, value) :: back ∧ Text.lowercase name = key ∧ (∀ url ∈ back, Text.lowercase url.1 ≠ key) ∧
    ∀ url ∈ urls, Text.lowercase url.1 ∉ preferred

/-- The data of a package whose name and version are texts. -/
def IsPackage (data : Data) : Prop :=
  ∃ fields, data = .object fields ∧ DeclaresText "name" fields ∧ DeclaresText "version" fields

/-- The data with a table for the project and one for its addresses, where name, version and address are texts. -/
def IsProject (data : Data) : Prop :=
  ∃ fields project urls, data = .object fields ∧ HasTable "project" fields project ∧ HasTable "urls" project urls ∧
    DeclaresText "name" project ∧ DeclaresText "version" project ∧ ∀ value, IsAddress urls value → IsTextOrNull value

/-! ## Fields -/

theorem fieldsOf_eq_ok_iff : fieldsOf data = .ok fields ↔ data = .object fields := by
  cases data <;> simp [fieldsOf]

theorem fieldsOf_eq_error (h : ∀ fields, data ≠ .object fields) : fieldsOf data = .error .noSuchPart := by
  cases data with
  | object fields => exact absurd rfl (h fields)
  | _ => rfl

theorem isTextOrNull_fieldOr_iff {key : String} : IsTextOrNull (fieldOr .null key fields) ↔ DeclaresText key fields := by
  unfold fieldOr DeclaresText
  cases Data.lookup? key.toList fields with
  | none => simp [IsTextOrNull]
  | some value => simp

theorem fieldOr_eq_object_iff {key : String} {table : List (Text × Data)} :
    fieldOr (.object []) key fields = .object table ↔ HasTable key fields table := by
  unfold fieldOr HasTable
  cases Data.lookup? key.toList fields with
  | none => simp [eq_comm]
  | some value => simp

/-! ## The address -/

theorem lookup?_lowercaseKeys (key : Text) (urls : List (Text × Data)) : Data.lookup? key (lowercaseKeys urls) =
    (urls.reverse.find? fun url => Text.lowercase url.1 = key).map (·.2) := by
  induction urls using List.reverseRecOn with
  | nil => rfl
  | append_singleton urls url ih =>
      have last : lowercaseKeys (urls ++ [url]) = Data.insert (Text.lowercase url.1) url.2 (lowercaseKeys urls) := by
        rw [lowercaseKeys, List.foldl_append]
        rfl
      rw [last, Data.lookup?_insert, ih, List.reverse_append, List.reverse_singleton, List.singleton_append, List.find?_cons]
      by_cases h : Text.lowercase url.1 = key <;> simp [h]

theorem lookup?_lowercaseKeys_eq_none_iff :
    Data.lookup? key (lowercaseKeys urls) = none ↔ ∀ url ∈ urls, Text.lowercase url.1 ≠ key := by
  simp [lookup?_lowercaseKeys]

theorem lookup?_lowercaseKeys_eq_some_iff : Data.lookup? key (lowercaseKeys urls) = some value ↔
    ∃ front name back, urls = front ++ (name, value) :: back ∧ Text.lowercase name = key ∧
      ∀ url ∈ back, Text.lowercase url.1 ≠ key := by
  rw [lookup?_lowercaseKeys, Option.map_eq_some_iff]
  constructor
  · rintro ⟨⟨name, value⟩, found, rfl⟩
    obtain ⟨same, back, front, split, after⟩ := List.find?_eq_some_iff_append.mp found
    refine ⟨front.reverse, name, back.reverse, ?_, of_decide_eq_true same, fun url hurl => ?_⟩
    · rw [← urls.reverse_reverse, split]
      simp
    · simpa using after url (List.mem_reverse.mp hurl)
  · rintro ⟨front, name, back, rfl, same, after⟩
    refine ⟨(name, value), List.find?_eq_some_iff_append.mpr ⟨decide_eq_true same, back.reverse, front.reverse, ?_, ?_⟩, rfl⟩
    · simp
    · intro url hurl
      simpa using after url (List.mem_reverse.mp hurl)

theorem findSome?_repositoryKeys_eq_some_iff :
    (repositoryKeys.findSome? fun key => Data.lookup? key (lowercaseKeys urls)) = some value ↔ IsAddress urls value := by
  rw [List.findSome?_eq_some_iff]
  simp only [lookup?_lowercaseKeys_eq_none_iff, lookup?_lowercaseKeys_eq_some_iff]
  constructor
  · rintro ⟨preferred, key, others, split, ⟨front, name, back, rfl, same, after⟩, apart⟩
    exact ⟨preferred, key, others, front, name, back, split, rfl, same, after,
      fun url hurl hmem => apart _ hmem url hurl rfl⟩
  · rintro ⟨preferred, key, others, front, name, back, split, rfl, same, after, apart⟩
    exact ⟨preferred, key, others, split, ⟨front, name, back, rfl, same, after⟩,
      fun other hother url hurl heq => apart url hurl (heq ▸ hother)⟩

theorem isTextOrNull_address_iff :
    IsTextOrNull ((repositoryKeys.findSome? fun key => Data.lookup? key (lowercaseKeys urls)).getD .null) ↔
      ∀ value, IsAddress urls value → IsTextOrNull value := by
  simp only [← findSome?_repositoryKeys_eq_some_iff]
  cases repositoryKeys.findSome? fun key => Data.lookup? key (lowercaseKeys urls) with
  | none => simp [IsTextOrNull]
  | some value => simp

/-! ## Data that was decoded -/

theorem endsWell_ok_iff : EndsWell path (.ok m) ↔ m.IsTyped := by
  simp [EndsWell]

theorem not_endsWell_noSuchPart : ¬EndsWell path (.error .noSuchPart) := by
  simp [EndsWell]

theorem exists_ofPackage (path : Path) (fields : List (Text × Data)) : ∃ repository, IsTextOrNull repository ∧
    ofPackage path (.object fields) =
      .ok { path, name := fieldOr .null "name" fields, version := fieldOr .null "version" fields, repository } := by
  refine ⟨_, ?_, rfl⟩
  split <;> trivial

theorem ofPackage_eq_error (h : ∀ fields, data ≠ .object fields) : ofPackage path data = .error .noSuchPart := by
  rw [ofPackage, fieldsOf_eq_error h]
  rfl

theorem endsWell_ofPackage_iff : EndsWell path (ofPackage path data) ↔ IsPackage data := by
  by_cases table : ∃ fields, data = .object fields
  · obtain ⟨fields, rfl⟩ := table
    obtain ⟨repository, typed, read⟩ := exists_ofPackage path fields
    rw [read, endsWell_ok_iff]
    constructor
    · rintro ⟨name, version, -⟩
      exact ⟨fields, rfl, isTextOrNull_fieldOr_iff.mp name, isTextOrNull_fieldOr_iff.mp version⟩
    · rintro ⟨_, same, name, version⟩
      cases same
      exact ⟨isTextOrNull_fieldOr_iff.mpr name, isTextOrNull_fieldOr_iff.mpr version, typed⟩
  · rw [ofPackage_eq_error (not_exists.mp table)]
    refine iff_of_false not_endsWell_noSuchPart ?_
    rintro ⟨fields, same, -⟩
    exact table ⟨fields, same⟩

theorem fieldsOf_of_hasTable {key : String} {table : List (Text × Data)} (h : HasTable key fields table) :
    fieldsOf (fieldOr (.object []) key fields) = .ok table :=
  fieldsOf_eq_ok_iff.mpr (fieldOr_eq_object_iff.mpr h)

theorem fieldsOf_of_not_hasTable {key : String} (h : ∀ table, ¬HasTable key fields table) :
    fieldsOf (fieldOr (.object []) key fields) = .error .noSuchPart :=
  fieldsOf_eq_error fun table hfield => h table (fieldOr_eq_object_iff.mp hfield)

theorem ofProject_eq_ok (hproject : HasTable "project" fields project) (hurls : HasTable "urls" project urls) :
    ofProject path (.object fields) = .ok {
      path, name := fieldOr .null "name" project, version := fieldOr .null "version" project
      repository := (repositoryKeys.findSome? fun key => Data.lookup? key (lowercaseKeys urls)).getD .null } := by
  show (fieldsOf (fieldOr (.object []) "project" fields)).bind _ = _
  rw [fieldsOf_of_hasTable hproject]
  show (fieldsOf (fieldOr (.object []) "urls" project)).bind _ = _
  rw [fieldsOf_of_hasTable hurls]
  rfl

theorem ofProject_eq_error (h : ∀ fields project urls, data = .object fields → HasTable "project" fields project →
    ¬HasTable "urls" project urls) : ofProject path data = .error .noSuchPart := by
  show (fieldsOf data).bind _ = _
  by_cases table : ∃ fields, data = .object fields
  · obtain ⟨fields, rfl⟩ := table
    show (fieldsOf (fieldOr (.object []) "project" fields)).bind _ = _
    by_cases inner : ∃ project, HasTable "project" fields project
    · obtain ⟨project, hproject⟩ := inner
      rw [fieldsOf_of_hasTable hproject]
      show (fieldsOf (fieldOr (.object []) "urls" project)).bind _ = _
      rw [fieldsOf_of_not_hasTable fun urls => h fields project urls rfl hproject]
      rfl
    · rw [fieldsOf_of_not_hasTable (not_exists.mp inner)]
      rfl
  · rw [fieldsOf_eq_error (not_exists.mp table)]
    rfl

theorem HasTable.eq {key : String} {table other : List (Text × Data)} (h : HasTable key fields table)
    (hother : HasTable key fields other) : table = other :=
  Data.object.inj ((fieldOr_eq_object_iff.mpr h).symm.trans (fieldOr_eq_object_iff.mpr hother))

theorem endsWell_ofProject_iff : EndsWell path (ofProject path data) ↔ IsProject data := by
  by_cases tables : ∃ fields project urls, data = .object fields ∧ HasTable "project" fields project ∧
      HasTable "urls" project urls
  · obtain ⟨fields, project, urls, rfl, hproject, hurls⟩ := tables
    rw [ofProject_eq_ok hproject hurls, endsWell_ok_iff]
    constructor
    · rintro ⟨name, version, repository⟩
      exact ⟨fields, project, urls, rfl, hproject, hurls, isTextOrNull_fieldOr_iff.mp name,
        isTextOrNull_fieldOr_iff.mp version, isTextOrNull_address_iff.mp repository⟩
    · rintro ⟨_, project', urls', same, hproject', hurls', name, version, address⟩
      cases same
      obtain rfl := hproject.eq hproject'
      obtain rfl := hurls.eq hurls'
      exact ⟨isTextOrNull_fieldOr_iff.mpr name, isTextOrNull_fieldOr_iff.mpr version, isTextOrNull_address_iff.mpr address⟩
  · rw [ofProject_eq_error fun fields project urls same hproject hurls => tables ⟨fields, project, urls, same, hproject, hurls⟩]
    refine iff_of_false not_endsWell_noSuchPart ?_
    rintro ⟨fields, project, urls, same, hproject, hurls, -⟩
    exact tables ⟨fields, project, urls, same, hproject, hurls⟩

/-! ## Files -/

def data? (files : Files) (path : Path) : Option Data :=
  match files.read path with
  | .error _ => none
  | .ok content => decode? (decide (path.name = ofString "package.json")) content

/-- Does the data have tables and texts where a manifest with the name of the file is looked into? -/
def IsShaped (path : Path) (data : Data) : Prop :=
  if path.name = ofString "package.json" then IsPackage data else IsProject data

def ofData (path : Path) (data : Data) : Except Fault Manifest :=
  if path.name = ofString "package.json" then ofPackage path data else ofProject path data

theorem endsWell_ofData_iff : EndsWell path (ofData path data) ↔ IsShaped path data := by
  unfold ofData IsShaped
  split
  · exact endsWell_ofPackage_iff
  · exact endsWell_ofProject_iff

/-- Data of another shape fails in one way only. -/
theorem eq_noSuchPart_of_ofData {fault : Fault} (h : ofData path data = .error fault) : fault = .noSuchPart := by
  unfold ofData at h
  split at h
  · by_cases table : ∃ fields, data = .object fields
    · obtain ⟨fields, rfl⟩ := table
      obtain ⟨_, -, read⟩ := exists_ofPackage path fields
      exact absurd (read.symm.trans h) nofun
    · exact Except.error.inj (h.symm.trans (ofPackage_eq_error (not_exists.mp table)))
  · by_cases tables : ∃ fields project urls, data = .object fields ∧ HasTable "project" fields project ∧
        HasTable "urls" project urls
    · obtain ⟨fields, project, urls, rfl, hproject, hurls⟩ := tables
      exact absurd ((ofProject_eq_ok hproject hurls).symm.trans h) nofun
    · exact Except.error.inj (h.symm.trans (ofProject_eq_error fun fields project urls same hproject hurls =>
        tables ⟨fields, project, urls, same, hproject, hurls⟩))

theorem read_of_data? {files : Files} (h : data? files path = some data) : read files path = ofData path data := by
  unfold data? at h
  split at h
  · contradiction
  next content found =>
    simp only [read, found, ofBytes, h, decide_eq_true_eq]
    rfl

theorem exists_read_of_data?_eq_none {files : Files} (h : data? files path = none) :
    ∃ reason, read files path = .error (.setup (.manifestUnreadable path.text reason)) := by
  unfold data? at h
  split at h
  next cause found => exact ⟨_, by rw [read, found]⟩
  next content found => exact ⟨ofString "not well-formed", by simp only [read, found, ofBytes, h]⟩

/-- Reading a manifest ends with texts or with the fault that the file cannot be read just if the data in the file, as far as
    it can be decoded, has tables and texts where they are looked for. The only other fault is that a value has no such part. -/
theorem endsWell_read_iff (files : Files) (path : Path) :
    (EndsWell path (read files path) ↔ ∀ data, data? files path = some data → IsShaped path data) ∧
    ∀ fault, read files path = .error fault →
      fault = .noSuchPart ∨ ∃ reason, fault = .setup (.manifestUnreadable path.text reason) := by
  cases hdata : data? files path with
  | none =>
      obtain ⟨reason, read⟩ := exists_read_of_data?_eq_none hdata
      rw [read]
      exact ⟨iff_of_true (Or.inr ⟨reason, rfl⟩) nofun, fun fault h => Or.inr ⟨reason, (Except.error.inj h).symm⟩⟩
  | some data =>
      rw [read_of_data? hdata, endsWell_ofData_iff]
      exact ⟨by simp, fun fault h => Or.inl (eq_noSuchPart_of_ofData h)⟩

/-! ## Manifests of other shapes -/

def topPath (name : String) : Path := { root := ['/'], names := [ofString name] }

def soleFile (name content : String) : Files := [(topPath name, .file (Text.encode (ofString content)))]

/-- A number is taken for a version and for an address, and a list in place of a package has no parts. -/
theorem read_not_endsWell :
    (read (soleFile "package.json" "\x7b\x22version\x22: 1\x7d") (topPath "package.json")).map (·.version matches .int 1) =
      .ok true ∧
    (read (soleFile "package.json" "[]") (topPath "package.json")).map (·.version matches .int 1) = .error .noSuchPart ∧
    (read (soleFile "pyproject.toml" "[project.urls]\nhomepage = 1\n") (topPath "pyproject.toml")).map
      (·.repository matches .int 1) = .ok true ∧
    ¬IsTextOrNull (.int 1) := by
  decide +kernel

end Manifest

end Changelog
