import Changelog.Command.Arguments
import Changelog.Files.Store
import Changelog.Markdown.Block
import Changelog.Markdown.Printer
import Changelog.Outline.Basic
import Changelog.Review.Run
import Changelog.Survey.Tally

/-! # Surveys

A survey shows what a changelog is made of: how many nodes of each kind, which releases with which groups, and on
request the link reference definitions.
-/

namespace Changelog.Survey

open Text (ofString)

def kindLine (kind : Kind) (count : Nat) : Text := kind.name ++ ofString ": " ++ Text.ofNat count

/-- A text that says something, or what stands in for it. -/
def textOr (standIn : String) (text : Option Text) : Text := (text.filter (!·.isEmpty)).getD standIn.toList

def releaseLine (r : Release) : Text :=
  textOr "n/a" r.version ++ ofString " (" ++ textOr "no date" r.date ++ ofString ") [" ++
    ofString (if r.isParseable then "ok" else "unparseable") ++ ofString "] " ++ Node.inlineTextAll r.heading.children

def groupLine (s : Section) : Text :=
  ofString "  " ++ textOr "invalid group" s.groupType? ++ ofString ": " ++ Text.ofNat s.content.length ++
    ofString " blocks"

def definitionLine (identifier : Text) (definition : Node) : Text :=
  identifier ++ ofString ": " ++ definition.url.getD (ofString "None")

def lines (withDefinitions : Bool) (root : Node) : List Text :=
  let o := Outline.ofNodes root.children
  [ofString "Node types:"] ++ (mostCommon (tally root)).map (fun item => kindLine item.1 item.2) ++
    [[], ofString "Releases:"] ++ o.releases.flatMap (fun r => releaseLine r :: r.groups.map groupLine) ++
    if withDefinitions then
      [[], ofString "Definitions:"] ++ o.definitions.map fun item => definitionLine item.1 item.2
    else []

/-! ## Requests -/

inductive SurveyOption where
  | help | definitions
  deriving Repr, DecidableEq

structure Request where
  path : Path := Path.ofText Review.fileName
  withDefinitions : Bool := false
  deriving Repr, DecidableEq

def table : List (OptionForm SurveyOption) := [
  { meaning := .help, name := ofString "--help", shape := .flag (some 'h') },
  { meaning := .definitions, name := ofString "--definitions", shape := .flag none }]

def Request.withOption (r : Request) : SurveyOption → Option Text → Except Arguments.Interruption Request
  | .help, _ => .error .help
  | .definitions, _ => .ok { r with withDefinitions := true }

def Request.ofArguments (arguments : List Text) : Except Arguments.Interruption Request := do
  let items ← (Arguments.read table (some 1) arguments).mapError .refused
  Arguments.collect withOption (fun r path => { r with path := Path.ofText path }) {} [] items

inductive SurveyFault where
  | interrupted (cause : Arguments.Interruption)
  /-- There is no file at the path. -/
  | missing (path : Text)
  /-- The file is not UTF-8. -/
  | undecodable (path : Text)
  deriving Repr, DecidableEq

/-- The lines of the survey that a command line asks for, among files seen from a directory. -/
def run (files : Files) (directory : Path) (arguments : List Text) : Except SurveyFault (List Text) := do
  let request ← (Request.ofArguments arguments).mapError .interrupted
  match files.read (directory.under request.path) with
  | .error _ => .error (.missing request.path.text)
  | .ok bytes =>
    match Text.decode? bytes with
    | none => .error (.undecodable request.path.text)
    | some content => return lines request.withDefinitions (Document.parse (Text.unifyNewlines content))

def missingMessage (path : Text) : Text := ofString "Changelog file not found: " ++ path

end Changelog.Survey
