import Changelog.Markdown.Node

/-! # Diagnostics

A diagnostic says what is wrong, by which rule, and where.
-/

namespace Changelog

def reporter : Text := Text.ofString "changelog-lint"

/-- A finding as it is shown to the user. -/
structure Diagnostic where
  message : Text
  rule : Text
  source : Text := reporter
  path : Option Text := none
  position : Option Position := none
  deriving Repr, DecidableEq

namespace Diagnostic

def ruleId (d : Diagnostic) : Text := d.source ++ ':' :: d.rule

/-- How a diagnostic is shown; without a position it stands for the start of the document, and an empty path
    is left out. -/
def text (d : Diagnostic) : Text :=
  let place := (d.position.getD {}).text
  let located :=
    match d.path with
    | some path => if path.isEmpty then place else path ++ ':' :: place
    | none => place
  located ++ ':' :: ' ' :: d.message

end Diagnostic

end Changelog
