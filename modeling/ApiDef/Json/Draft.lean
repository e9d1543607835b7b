import ApiDef.Json.Token
set_option autoImplicit false

/-!
# JSON drafts

What a text says as far as it is JSON. Where the text stops being JSON, the value that was expected
is broken, and every list around it stays open. So whoever looks at a draft in the order of its text
meets a flaw exactly when there is no way around it.
-/

namespace ApiDef.Json

/-- A value as far as its text is JSON. A string or key with a lone surrogate has no text. -/
inductive Draft where
  | null
  | bool (value : Bool)
  | number (numeral : Numeral)
  | string (text : Option String)
  | array (elements : List Draft) (closed : Bool)
  | object (members : List (Option String × Draft)) (closed : Bool)
  | broken
deriving Repr, Inhabited

namespace Draft

mutual

def isWhole : Draft → Bool
  | null | bool _ | number _ | string _ => true
  | array elements closed => elementsWhole elements && closed
  | object members closed => membersWhole members && closed
  | broken => false

def elementsWhole : List Draft → Bool
  | [] => true
  | element :: others => isWhole element && elementsWhole others

/-- Whether the values of all members can be passed over. -/
def membersWhole : List (Option String × Draft) → Bool
  | [] => true
  | (_, value) :: others => isWhole value && membersWhole others

end

/-- Whether a value can be kept, when at most so many levels may be opened: all of its strings are
texts, and its numbers are not too large. -/
def isTidy : Nat → Draft → Bool
  | _, null | _, bool _ => true
  | _, number numeral => !numeral.overflows
  | _, string text => text.isSome
  | 0, _ => false
  | levels + 1, array elements closed => elements.all (isTidy levels) && closed
  | levels + 1, object members closed =>
    members.all (fun (key, value) => key.isSome && isTidy levels value) && closed
  | _ + 1, broken => false

/-- A list that was opened and not yet closed; what it holds stands last first. -/
inductive Frame where
  | elements (done : List Draft)
  | members (done : List (Option String × Draft))
  /-- A key has been read, and its value has not. -/
  | value (done : List (Option String × Draft)) (key : Option String)
deriving Repr

/-- What the grammar allows next. -/
inductive Expecting where
  | value
  | firstElement
  | firstKey
  | key
  | colon
  /-- A comma or the closing bracket of the innermost list. -/
  | more
deriving DecidableEq, Repr

/-- Puts a value into the lists that are still open, all of which stay open. -/
def inside : List Frame → Draft → Draft
  | [], draft => draft
  | .elements done :: outer, draft => inside outer (array (draft :: done).reverse false)
  | .members done :: outer, _ => inside outer (object done.reverse false)
  | .value done key :: outer, draft => inside outer (object ((key, draft) :: done).reverse false)

def abandon : List Frame → Draft
  | .elements done :: outer => inside outer (array done.reverse false)
  | frames => inside frames broken

/-- What there is after a value, and the tokens behind it: only the outermost value ends the draft. -/
def deliver (frames : List Frame) (draft : Draft) : Draft ⊕ Expecting × List Frame :=
  match frames with
  | [] => .inl draft
  | .elements done :: outer => .inr (.more, .elements (draft :: done) :: outer)
  | .value done key :: outer => .inr (.more, .members ((key, draft) :: done) :: outer)
  | .members done :: outer => .inr (.more, .members done :: outer)

def startValue (frames : List Frame) : Token → Option (Draft ⊕ Expecting × List Frame)
  | .null => some (deliver frames null)
  | .bool value => some (deliver frames (bool value))
  | .number numeral => some (deliver frames (number numeral))
  | .string text => some (deliver frames (string text))
  | .openArray => some (.inr (.firstElement, .elements [] :: frames))
  | .openObject => some (.inr (.firstKey, .members [] :: frames))
  | _ => none

def startMember (frames : List Frame) : Token → Option (Draft ⊕ Expecting × List Frame)
  | .string key =>
    match frames with
    | .members done :: outer => some (.inr (.colon, .value done key :: outer))
    | _ => none
  | _ => none

def close (frames : List Frame) : Token → Option (Draft ⊕ Expecting × List Frame)
  | .closeArray =>
    match frames with
    | .elements done :: outer => some (deliver outer (array done.reverse true))
    | _ => none
  | .closeObject =>
    match frames with
    | .members done :: outer => some (deliver outer (object done.reverse true))
    | _ => none
  | _ => none

/-- Goes on to the next element or member of the innermost list. -/
def next (frames : List Frame) : Option (Draft ⊕ Expecting × List Frame) :=
  match frames with
  | .elements _ :: _ => some (.inr (.value, frames))
  | .members _ :: _ => some (.inr (.key, frames))
  | _ => none

/-- What one token leads to; nothing when the grammar does not allow it. -/
def step (expecting : Expecting) (frames : List Frame) (token : Token) :
    Option (Draft ⊕ Expecting × List Frame) :=
  match expecting with
  | .value => startValue frames token
  | .firstElement => if token = .closeArray then close frames token else startValue frames token
  | .firstKey => if token = .closeObject then close frames token else startMember frames token
  | .key => startMember frames token
  | .colon => if token = .colon then some (.inr (.value, frames)) else none
  | .more => if token = .comma then next frames else close frames token

/-- The draft that tokens give, and the tokens behind it. -/
def assemble (expecting : Expecting) (frames : List Frame) : List Token → Draft × List Token
  | [] => (abandon frames, [])
  | token :: others =>
    match step expecting frames token with
    | none => (abandon frames, token :: others)
    | some (.inl draft) => (draft, others)
    | some (.inr (expecting, frames)) => assemble expecting frames others

/-- The draft of a text, and whether nothing follows it. -/
def ofText (text : String) : Draft × Bool :=
  let (tokens, complete) := tokens text.toList
  let (draft, others) := assemble .value [] tokens
  (draft, others.isEmpty && complete)

end Draft

end ApiDef.Json
