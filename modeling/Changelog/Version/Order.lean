import Changelog.Version.Precedence

/-! # Newest first

The order of version texts in a changelog: what is not released yet, then semantic versions from the
newest to the oldest, then every other text in ascending order.
-/

namespace Changelog

/-- The version of what is not released yet. -/
def unreleased : Text := Text.ofString "unreleased"

namespace Version

/-- Order of two version texts, newest first. -/
def newestFirst (a b : Text) : Ordering :=
  if a = b then .eq
  else if a = unreleased then .lt
  else if b = unreleased then .gt
  else
    match isValid a, isValid b with
    | true, true => compareTexts b a
    | true, false => .lt
    | false, true => .gt
    | false, false => if compare a b = .lt then .lt else .gt

/-- Can two texts not be compared? So it is for distinct versions one of which is a candidate with too long a
    number. -/
def clash (a b : Text) : Bool :=
  (hasLongCandidate a || hasLongCandidate b) && a != b && isValid a && isValid b

/-- Order of two version texts, newest first, where they can be compared. -/
def compareNewest (a b : Text) : Except Fault Ordering :=
  if clash a b then .error .numberTooLong else .ok (newestFirst a b)

end Version

/-- The items in the order given by `order`; items of equal rank keep their places. Where the order is not transitive
    on the items, other stable sorts have other results. -/
def stableSort {α : Type} (order : α → α → Ordering) (items : List α) : List α :=
  items.mergeSort fun a b => order a b != .gt

/-- Are neighbours in order? The pairs are looked at from the left, up to the first that is not. -/
def isSortedBy {α : Type} (order : α → α → Except Fault Ordering) : List α → Except Fault Bool
  | a :: b :: rest =>
    match order a b with
    | .error fault => .error fault
    | .ok .gt => .ok false
    | .ok _ => isSortedBy order (b :: rest)
  | _ => .ok true

namespace Version

/-- Does the collection hold two texts that cannot be compared? A sort has to compare them, or one of them
    with another version, since they would be neighbours in its result. -/
def anyClash (texts : List Text) : Bool :=
  texts.any fun a => hasLongCandidate a && isValid a && texts.any fun b => a != b && isValid b

/-- Items by the version text that `key` gives them, newest first. -/
def sortNewest {α : Type} (key : α → Text) (items : List α) : Except Fault (List α) :=
  if anyClash (items.map key) then .error .numberTooLong
  else .ok (stableSort (fun a b => newestFirst (key a) (key b)) items)

/-! ## Tags -/

/-- The tag of a version: with the letter `v` in front, unless only the tag without it exists. -/
def tag (version : Text) (tags : List Text) : Text :=
  let plain := (Text.dropLead? ['v'] version).getD version
  if 'v' :: plain ∈ tags then 'v' :: plain
  else if plain ∈ tags then plain
  else 'v' :: plain

/-- The versions of the tags that are a version with the letter `v` in front. -/
def tagged (tags : List Text) : List Text :=
  (tags.filterMap (Text.dropLead? ['v'])).filter isValid

/-- The newest version among the tags. -/
def lastTagged (tags : List Text) : Except Fault (Option Text) :=
  (sortNewest id (tagged tags)).map List.head?

end Version

end Changelog
