import ApiDef.Check.TypeTable
import ApiDef.Check.Vocabulary
import ApiDef.Rest.Route
import ApiDef.Text.Position
set_option autoImplicit false

/-!
# Findings

What can be wrong with a text that is well formed, and where.
-/

namespace ApiDef

/-- How bad a finding is. -/
inductive Severity where
  | warning
  | error
deriving DecidableEq, Repr

def Severity.label : Severity → String
  | warning => "warning"
  | error => "error"

/-- What is wrong. -/
inductive Issue where
  /-- No tag may stand at this site. -/
  | tagForbidden (site : Site)
  /-- The tag is not one of those allowed at this site. -/
  | tagUnknown (site : Site) (allowed : List String)
  | type (issue : TypeIssue)
  | route (issue : RouteIssue)
deriving DecidableEq, Repr

namespace Issue

/-- An unknown type is a warning; everything else is an error. -/
def severity : Issue → Severity
  | type (.unknown _) => .warning
  | _ => .error

def message : Issue → String
  | tagForbidden site => "Annotations not allowed on " ++ site.plural
  | tagUnknown site allowed =>
    "Invalid " ++ site.singular ++ " annotation - must be one of "
      ++ String.intercalate ", " allowed
  | type (.unknown name) => "Type not found: \"" ++ name ++ "\""
  | type (.genericsForbidden name) =>
    "Generic arguments not supported for type: \"" ++ name ++ "\""
  | type (.genericsMiscounted name) =>
    "Invalid number of generic arguments: \"" ++ name ++ "\""
  | route issue => issue.message

end Issue

/-- An issue and its place. -/
structure Finding where
  issue : Issue
  place : Text.Span
deriving DecidableEq, Repr

namespace Finding

def severity (finding : Finding) : Severity := finding.issue.severity

/-- The wording of a finding, without its place. -/
def message (finding : Finding) : String := finding.issue.message

def isError (finding : Finding) : Bool := finding.severity = .error

/-- The wording of a finding, with its line. -/
def text (finding : Finding) : String :=
  s!"line {finding.place.start.line}: {finding.severity.label}: {finding.message}"

end Finding

end ApiDef
