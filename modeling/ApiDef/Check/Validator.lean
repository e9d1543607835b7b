import ApiDef.Check.Question
set_option autoImplicit false

/-!
# Validators

The checks that go on while a text is parsed, and what they know: the types declared so far and the
findings so far. Every finding goes through `report`, which keeps it or stops with it.
-/

namespace ApiDef

open Text

/-- The state of the checks. -/
structure Validator where
  /-- What is wrong with a path pattern, for those that are no regular expressions. -/
  patternFault? : String → Option String
  options : Options
  table : TypeTable
  findings : List Finding

namespace Validator

def new (patternFault? : String → Option String) (options : Options) : Validator :=
  ⟨patternFault?, options, .ofSignatures options.validTypes, []⟩

/-- Keeps a finding where findings are collected, and stops with it where they are not. -/
def report (validator : Validator) (finding : Finding) : Except Finding Validator :=
  if validator.options.softErrors then
    .ok { validator with findings := validator.findings ++ [finding] }
  else .error finding

def declare (validator : Validator) (name : String) : Validator :=
  { validator with table := validator.table.declare name }

def checkTags (validator : Validator) (site : Site) :
    List (Tag × Span) → Except Finding Validator
  | [] => .ok validator
  | (tag, place) :: others => do
    match Question.tagIssue? validator.options site tag with
    | none => validator.checkTags site others
    | some issue => (← validator.report ⟨issue, place⟩).checkTags site others

/-- Reports everything that is wrong with a type, at the place of the whole type. -/
def checkType (validator : Validator) (type : TypeRef) (place : Span) : Except Finding Validator :=
  (validator.table.issues type).foldlM (fun validator issue => validator.report ⟨.type issue, place⟩)
    validator

def checkRoute (validator : Validator) (method : Method) (place : Span) :
    Except Finding Validator :=
  if validator.options.rest then
    match method.routeIssue? validator.patternFault? with
    | none => .ok validator
    | some issue => validator.report ⟨.route issue, place⟩
  else .ok validator

end Validator

end ApiDef
