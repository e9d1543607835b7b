import ApiDef.Check.Finding
set_option autoImplicit false

/-!
# Questions

A question stands for a check that a piece of a text calls for. Readers raise questions and look at no
answer: the answers depend on the options and on the types declared so far, and the questions do not.
-/

namespace ApiDef

open Text

/-- A question that a piece of text raises. -/
inductive Question where
  /-- May these tags stand here? -/
  | tags (site : Site) (found : List (Tag × Span))
  /-- From here on the name is a type. -/
  | declare (name : String)
  /-- Is this type known? -/
  | type (type : TypeRef) (place : Span)
  /-- Does the route of this method hold together? -/
  | route (method : Method) (place : Span)
deriving DecidableEq, Repr

namespace Question

def tagIssue? (options : Options) (site : Site) (tag : Tag) : Option Issue :=
  let allowed := options.allowedTags site
  if allowed.isEmpty then some (.tagForbidden site)
  else if allowed.any tag.isNamed then none
  else some (.tagUnknown site allowed)

def findings (patternFault? : String → Option String) (options : Options) (table : TypeTable) :
    Question → List Finding
  | tags site found =>
    found.filterMap fun (tag, place) =>
      (tagIssue? options site tag).map fun issue => ⟨issue, place⟩
  | declare _ => []
  | type declared place => (table.issues declared).map fun issue => ⟨.type issue, place⟩
  | route method place =>
    if options.rest then
      ((method.routeIssue? patternFault?).map fun issue => (⟨.route issue, place⟩ : Finding)).toList
    else []

def tableAfter (table : TypeTable) : Question → TypeTable
  | declare name => table.declare name
  | _ => table

/-- The findings that answer several questions in order. -/
def findingsOfAll (patternFault? : String → Option String) (options : Options) :
    TypeTable → List Question → List Finding
  | _, [] => []
  | table, question :: others =>
    question.findings patternFault? options table
      ++ findingsOfAll patternFault? options (question.tableAfter table) others

end Question

end ApiDef
