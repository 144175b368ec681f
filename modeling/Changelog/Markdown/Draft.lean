import Changelog.Data.Integer
import Changelog.Diagnostic
import Changelog.Markdown.Inline

/-! # Drafts

Nodes, positions and diagnostics can be given as data. A draft is checked field by field, in the order of the
fields; every fault is reported with the way to the field and what is wrong with it.
-/

namespace Changelog

inductive DraftFault where
  | missing
  | notText
  | notInteger
  /-- It could be an integer, but for the given cause it is none. -/
  | integer (cause : IntegerFault)
  | tooSmall
  | tooLarge
  | notChoice
  | notList
  | notTruthValue
  | notTruthText
  | notObject
  deriving Repr, DecidableEq

def DraftFault.name : DraftFault → Text
  | .missing => Text.ofString "missing"
  | .notText => Text.ofString "string_type"
  | .notInteger => Text.ofString "int_type"
  | .integer .unreadable => Text.ofString "int_parsing"
  | .integer .oversized => Text.ofString "int_parsing_size"
  | .integer .fractional => Text.ofString "int_from_float"
  | .integer .notFinite => Text.ofString "finite_number"
  | .tooSmall => Text.ofString "greater_than_equal"
  | .tooLarge => Text.ofString "less_than_equal"
  | .notChoice => Text.ofString "literal_error"
  | .notList => Text.ofString "list_type"
  | .notTruthValue => Text.ofString "bool_type"
  | .notTruthText => Text.ofString "bool_parsing"
  | .notObject => Text.ofString "model_type"

/-- A fault with the way to its field. -/
structure FieldFault where
  way : List Text
  fault : DraftFault
  deriving Repr, DecidableEq

/-- How a fault is shown: the way with dots, a colon and the name. -/
def FieldFault.text (f : FieldFault) : Text := Text.join ['.'] f.way ++ ':' :: ' ' :: f.fault.name

namespace Draft

/-- The outcome of a check: faults in the order of the fields, and the value, which counts only if there are
    none. -/
structure Checked (α : Type) where
  value : α
  faults : List FieldFault := []

namespace Checked

def sound {α : Type} (value : α) : Checked α := { value }

def faulty {α : Type} (value : α) (fault : DraftFault) : Checked α := { value, faults := [⟨[], fault⟩] }

/-- Checks are combined by applying the checked function to the checked value, with the faults of both. -/
instance : Applicative Checked where
  pure value := { value }
  seq f c := { value := f.value (c ()).value, faults := f.faults ++ (c ()).faults }

/-- The check of what stands under `name`. -/
def under {α : Type} (name : Text) (c : Checked α) : Checked α :=
  { c with faults := c.faults.map fun f => { f with way := name :: f.way } }

def result {α : Type} (c : Checked α) : Except (List FieldFault) α :=
  if c.faults.isEmpty then .ok c.value else .error c.faults

end Checked

open Checked

/-- An integer from `least` up to `most`, if there is a largest one. -/
def bounded (least : Nat) (most : Option Nat) (n : Int) : Checked Nat :=
  if n < least then faulty least .tooSmall
  else
    match most with
    | some most => if (most : Int) < n then faulty most .tooLarge else sound n.toNat
    | none => sound n.toNat

/-- A number within bounds. Truth values, whole decimals and texts of integers count as integers. -/
def number (least : Nat) (most : Option Nat) : Data → Checked Nat
  | .int n => bounded least most n
  | .bool b => bounded least most (if b then 1 else 0)
  | .decimal d => converted (Integer.ofDouble (Double.ofDecimal d))
  | .text t => converted (Integer.ofText t)
  | _ => faulty least .notInteger
where
  /-- The check of an integer that was given as something else. -/
  converted : Except IntegerFault Int → Checked Nat
    | .ok n => bounded least most n
    | .error cause => faulty least (.integer cause)

def text : Data → Checked Text
  | .text t => sound t
  | _ => faulty [] .notText

def truthWords : List (Text × Bool) :=
  [("1", true), ("true", true), ("t", true), ("yes", true), ("y", true), ("on", true),
    ("0", false), ("false", false), ("f", false), ("no", false), ("n", false), ("off", false)].map
    fun (word, value) => (word.toList, value)

/-- The truth value of an integer: zero is false and one is true. -/
def bit (n : Int) : Checked Bool :=
  if n = 0 then sound false else if n = 1 then sound true else faulty false .notTruthText

/-- A truth value. Zero and one, also as decimals, and words for yes and no count as such. A number that is no integer
    of a machine word is of the wrong kind; another integer, or another word, is a wrong one of the right kind. -/
def truth : Data → Checked Bool
  | .bool b => sound b
  | .int n => if Integer.fitsWord n then bit n else faulty false .notTruthValue
  | .decimal d =>
    match Integer.ofDouble (Double.ofDecimal d) with
    | .ok n => bit n
    | .error _ => faulty false .notTruthValue
  | .text t =>
    match truthWords.lookup (t.map Char.toLower) with
    | some b => sound b
    | none => faulty false .notTruthText
  | _ => faulty false .notTruthValue

def form : Data → Checked ReferenceForm
  | .text t =>
    match ReferenceForm.ofName? t with
    | some form => sound form
    | none => faulty .full .notChoice
  | _ => faulty .full .notChoice

def required {α : Type} (check : Data → Checked α) (standIn : α) (name : String) (fields : List (Text × Data)) :
    Checked α :=
  match Data.lookup? name.toList fields with
  | some value => under name.toList (check value)
  | none => under name.toList (faulty standIn .missing)

/-- A field that has a value of its own when it is left out. -/
def defaulted {α : Type} (check : Data → Checked α) (default : α) (name : String) (fields : List (Text × Data)) :
    Checked α :=
  match Data.lookup? name.toList fields with
  | some value => under name.toList (check value)
  | none => sound default

/-- A field that may be left out or null. -/
def optional {α : Type} (check : Data → Checked α) (name : String) (fields : List (Text × Data)) :
    Checked (Option α) :=
  match Data.lookup? name.toList fields with
  | none | some .null => sound none
  | some value => some <$> under name.toList (check value)

/-- A position; every number is at least one, and is one when it is left out. -/
def position : Data → Checked Position
  | .object fields =>
    let coordinate := fun name => defaulted (number 1 none) 1 name fields
    Position.mk <$> coordinate "start_line" <*> coordinate "start_column" <*> coordinate "end_line" <*>
      coordinate "end_column"
  | _ => faulty {} .notObject

/-- The check of the fields of a node, given the check of its children. -/
def nodeFields (fields : List (Text × Data)) (children : Checked (List Node)) : Checked Node :=
  let texts := fun name => optional text name fields
  Node.mk <$> (Kind.ofName <$> required text [] "type" fields) <*>
    optional (number 1 (some 6)) "depth" fields <*> texts "value" <*> texts "url" <*> texts "title" <*>
    texts "identifier" <*> texts "label" <*> optional form "reference_type" fields <*>
    defaulted truth false "spread" fields <*> under (Text.ofString "children") children <*>
    optional position "position" fields

mutual

def node : Data → Checked Node
  | .object fields => nodeFields fields (childrenField fields)
  | _ => faulty { kind := .root } .notObject

def childrenField : List (Text × Data) → Checked (List Node)
  | [] => sound []
  | (key, value) :: rest =>
    if key = Text.ofString "children" then children value else childrenField rest

def children : Data → Checked (List Node)
  | .list items => nodesFrom 0 items
  | _ => faulty [] .notList

/-- Nodes that are numbered from `index` on. -/
def nodesFrom (index : Nat) : List Data → Checked (List Node)
  | [] => sound []
  | item :: items => List.cons <$> under (Text.ofNat index) (node item) <*> nodesFrom (index + 1) items

end

def diagnostic : Data → Checked Diagnostic
  | .object fields =>
    Diagnostic.mk <$> required text [] "message" fields <*> required text [] "rule" fields <*>
      defaulted text reporter "source" fields <*> optional text "path" fields <*> optional position "position" fields
  | _ => faulty { message := [], rule := [] } .notObject

/-- The inline nodes of a text that is said to start at a column of a line. The first node decides whether its
    position can be, since no other one starts before it. -/
def inline (line : Option Int) (column : Int) (content : Text) : Except (List FieldFault) (List Node) :=
  match line with
  | none => .ok (Inline.parse none 1 content)
  | some line =>
    let nodes := Inline.parse (some line.toNat) column.toNat content
    let width :=
      match (Inline.parse (some 1) 1 content).head? with
      | some { position := some p, .. } => p.endColumn - p.startColumn
      | _ => 0
    if nodes.isEmpty then .ok []
    else
      let coordinate := fun name value => under (Text.ofString name) (bounded 1 none value)
      let checked := Position.mk <$> coordinate "start_line" line <*> coordinate "start_column" column <*>
        coordinate "end_line" line <*> coordinate "end_column" (column + width)
      checked.result.map fun _ => nodes

end Draft

end Changelog
