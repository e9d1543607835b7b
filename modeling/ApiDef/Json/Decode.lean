import ApiDef.Json.Draft
set_option autoImplicit false

/-!
# Decoding drafts

How values are taken from a draft. A draft is looked at in the order of its text, and the first
fault counts. A record is an object with known fields, each at most once, or an array of its fields
in their order; members that it does not know are passed over.
-/

namespace ApiDef.Json

/-- Why a text gives no value. -/
inductive Fault where
  /-- The text is not JSON, or a value has the wrong form. -/
  | malformed
  | missing (field : String)
  | duplicate (field : String)
  | unknownChoice (found : String) (choices : List String)
  /-- A value has none of the forms of a type. -/
  | noShape
deriving DecidableEq, Repr

namespace Fault

def shown (name : String) : String := "`" ++ name ++ "`"

def choicesText : List String → String
  | [] => "there are no variants"
  | [one] => "expected " ++ shown one
  | [first, second] => "expected " ++ shown first ++ " or " ++ shown second
  | many => "expected one of " ++ String.intercalate ", " (many.map shown)

/-- The wording of a fault. Malformed texts have none of their own. -/
def message? : Fault → Option String
  | malformed => none
  | missing field => some ("missing field " ++ shown field)
  | duplicate field => some ("duplicate field " ++ shown field)
  | unknownChoice found choices =>
    some ("unknown variant " ++ shown found ++ ", " ++ choicesText choices)
  | noShape => some "data did not match any variant of untagged enum SchemaType"

end Fault

abbrev Decoded : Type → Type := Except Fault

/-- How many levels of arrays and objects may be opened in values that are used. -/
def levelLimit : Nat := 127

namespace Draft

variable {α β : Type}

def asText : Draft → Decoded String
  | string (some text) => .ok text
  | _ => .error .malformed

def asBool : Draft → Decoded Bool
  | bool value => .ok value
  | _ => .error .malformed

/-- The smallest positive integer that does not fit into 64 bits with a sign. -/
def signedBound : Int := 0x8000000000000000

/-- An integer of 64 bits with a sign. -/
def asInteger : Draft → Decoded Int
  | number numeral =>
    match numeral.integer? with
    | some value =>
      if -signedBound ≤ value ∧ value < signedBound then .ok value else .error .malformed
    | none => .error .malformed
  | _ => .error .malformed

def asOptional (decode : Draft → Decoded α) : Draft → Decoded (Option α)
  | null => .ok none
  | draft => some <$> decode draft

def keyText : Option String → Decoded String
  | some key => .ok key
  | none => .error .malformed

/-- What a list gave, unless it stayed open. -/
def ifClosed (closed : Bool) (value : α) : Decoded α :=
  if closed then .ok value else .error .malformed

/-- What decodes an element one level further down; nothing is decoded beyond the last level. -/
def deeper (decode : Nat → Draft → Decoded α) : Nat → Decoded (Draft → Decoded α)
  | 0 => .error .malformed
  | levels + 1 => .ok (decode levels)

def asList (decode : Nat → Draft → Decoded α) (levels : Nat) (draft : Draft) :
    Decoded (List α) := do
  let element ← deeper decode levels
  match draft with
  | array elements closed => ifClosed closed (← elements.mapM element)
  | _ => .error .malformed

/-- The members of an object, with every key that it has. -/
def membersOf (decode : Draft → Decoded α) : Draft → Decoded (List (String × α))
  | object members closed => do
    let members ← members.mapM fun (key, value) => do return (← keyText key, ← decode value)
    ifClosed closed members
  | _ => .error .malformed

def asMembers (decode : Nat → Draft → Decoded α) (levels : Nat) (draft : Draft) :
    Decoded (List (String × α)) := do
  membersOf (← deeper decode levels) draft

def chosen (choices : List (String × α)) (name : String) : Decoded α :=
  match choices.lookup name with
  | some value => .ok value
  | none => .error (.unknownChoice name (choices.map (·.1)))

/-- One of several names; an object with that name as its only key and null as its value will do. -/
def asChoice (choices : List (String × α)) (levels : Nat) : Draft → Decoded α
  | string (some name) => chosen choices name
  | object ((some name, value) :: others) closed => do
    if levels = 0 then .error .malformed
    let found ← chosen choices name
    match value, others with
    | null, [] => ifClosed closed found
    | _, _ => .error .malformed
  | _ => .error .malformed

def pass (draft : Draft) (value : α) : Decoded α :=
  ifClosed draft.isWhole value

def once (field : String) (held : Option α) (value : Decoded α) : Decoded (Option α) :=
  match held with
  | some _ => .error (.duplicate field)
  | none => some <$> value

/-- The members of a record as they are given. -/
structure Given where
  members : List (Option String × Draft)
  closed : Bool
  /-- What is wrong when a field is missing. -/
  absent : String → Fault

/-- The members of a record with these fields. An array has no more elements than there are
fields. -/
def given (fields : List String) : Draft → Decoded Given
  | object members closed => .ok ⟨members, closed, .missing⟩
  | array elements closed =>
    .ok ⟨(fields.zip elements).map fun (field, value) => (some field, value),
      closed && elements.length ≤ fields.length, fun _ => .malformed⟩
  | _ => .error .malformed

def Given.require (given : Given) (field : String) (held : Option α) : Decoded α :=
  match held with
  | some value => .ok value
  | none => .error (given.absent field)

/-- Takes in the members one after the other and then looks at what there is. -/
def Given.collect (given : Given) (empty : α) (take : α → String → Draft → Decoded α)
    (finish : Given → α → Decoded β) : Decoded β := do
  let parts ← given.members.foldlM
    (fun parts (key, value) => do take parts (← keyText key) value) empty
  finish given (← ifClosed given.closed parts)

/-- A record whose level has been opened, where `take` decodes the value of one member. -/
def recordOf (fields : List String) (empty : α) (take : α → String → Draft → Decoded α)
    (finish : Given → α → Decoded β) (draft : Draft) : Decoded β := do
  (← given fields draft).collect empty take finish

def asRecord (fields : List String) (empty : α) (take : Nat → α → String → Draft → Decoded α)
    (finish : Given → α → Decoded β) : Nat → Draft → Decoded β
  | 0, _ => .error .malformed
  | levels + 1, draft => recordOf fields empty (take levels) finish draft

end Draft

/-- The value of a whole text. What stands behind it is looked at last. -/
def read {α : Type} (decode : Nat → Draft → Decoded α) (text : String) : Decoded α := do
  let (draft, complete) := Draft.ofText text
  let value ← decode levelLimit draft
  Draft.ifClosed complete value

end ApiDef.Json
