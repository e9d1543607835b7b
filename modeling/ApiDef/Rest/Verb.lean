import ApiDef.Model.Entity
set_option autoImplicit false

/-!
# Verbs and transports

The REST vocabulary: which tags of a method name an HTTP verb, and which tags of a
parameter say where its value comes from. Both are recognised whatever their case, and with or
without `@`.
-/

namespace ApiDef

/-- An HTTP verb. -/
inductive Verb where
  | get
  | post
  | put
  | patch
  | delete
  | head
deriving DecidableEq, Repr

namespace Verb

/-- Every verb, in the order of listings. -/
def all : List Verb := [get, post, put, patch, delete, head]

def label : Verb → String
  | get => "GET"
  | post => "POST"
  | put => "PUT"
  | patch => "PATCH"
  | delete => "DELETE"
  | head => "HEAD"

def tagName (verb : Verb) : String := "@" ++ verb.label

def ofName? (name : String) : Option Verb :=
  all.find? fun verb => Text.sameIgnoringCase verb.label (Text.dropLeading '@' name)

end Verb

/-- The first tag of a method that names a verb, with that verb. -/
def Method.verb? (method : Method) : Option (Verb × Tag) :=
  method.tags.findSome? fun tag =>
    (Verb.ofName? tag.name).map fun verb => (verb, tag)

/-- Where the value of a parameter comes from. -/
inductive Transport where
  | path
  | header
  | query
  | body
deriving DecidableEq, Repr

namespace Transport

/-- Every transport, in the order of listings. -/
def all : List Transport := [path, header, query, body]

def label : Transport → String
  | path => "Path"
  | header => "Header"
  | query => "Query"
  | body => "Body"

def tagName (transport : Transport) : String := "@" ++ transport.label

def ofName? (name : String) : Option Transport :=
  all.find? fun transport => Text.sameIgnoringCase transport.label (Text.dropLeading '@' name)

/-- The first tag that names a transport, with that transport. -/
def find? (tags : List Tag) : Option (Transport × Tag) :=
  tags.findSome? fun tag =>
    (ofName? tag.name).map fun transport => (transport, tag)

/-- The transport of a parameter without a transport tag. -/
def fallback : Transport := query

end Transport

def Parameter.transport (parameter : Parameter) : Transport :=
  ((Transport.find? parameter.tags).map (·.1)).getD .fallback

/-- The path variable that a parameter is bound to: the argument of its path tag, or else its
own name. Other parameters have none. -/
def Parameter.pathVariable? (parameter : Parameter) : Option String :=
  match Transport.find? parameter.tags with
  | some (.path, tag) => some (tag.firstArgument?.getD parameter.name)
  | _ => none

end ApiDef
