import ApiDef.Rest.PropertyNames
import ApiDef.Text.Blank
import ApiDef.Text.Literal
set_option autoImplicit false

/-!
# Patterns

A stand-in for a library of regular expressions, for the program that runs: everything that is said
about texts with path patterns is said for any library. The grammar has groups, alternatives, character
classes with nesting and set operations, counted and uncounted repetition, flags and escapes; it has no
look-around and no back-references. A pattern may nest 250 levels deep, and what it compiles to must stay
below about ten megabytes.

The pattern is read from left to right by `step`, which takes at least one character each time. What
is still open stands on two stacks: one of groups, and inside a character class one of classes.
-/

namespace ApiDef.Pattern

open Text

/-- The flags that matter for the form of what follows. -/
structure Flags where
  /-- Blanks and `#` comments stand for nothing. -/
  verbose : Bool
  /-- Classes and escapes match characters, not bytes. -/
  unicode : Bool
deriving DecidableEq, Repr

/-- Something that has been read: how deep it nests, how large it is when compiled, and whether a
repetition may follow it. -/
structure Item where
  repeatable : Bool
  depth : Nat
  size : Nat
deriving Repr

/-- A group that is still open: its finished alternatives, and the items of the one being read with
the latest first. -/
structure Group where
  alternatives : List Item
  items : List Item
  outerFlags : Flags
deriving Repr

/-- A character class that is still open. -/
structure Class where
  depth : Nat
  negated : Bool
deriving Repr

/-- How far a pattern has been read. -/
structure State where
  current : Group
  outer : List Group
  classes : List Class
  flags : Flags
  names : List (List Char)
deriving Repr

def stateSize : Nat := 32

def sizeLimit : Nat := 10485760

def depthLimit : Nat := 250

def characterItem (c : Char) : Item := ⟨true, 0, stateSize * c.utf8Size⟩

def assertionItem : Item := ⟨true, 0, stateSize⟩

/-- A class that stands for the given number of ranges. -/
def rangesItem (ranges : Nat) : Item := ⟨true, 0, stateSize + 60 * ranges⟩

def sequenceItem : List Item → Item
  | [] => ⟨false, 0, 0⟩
  | [item] => item
  | items => ⟨true, items.foldl (fun deep item => max deep item.depth) 0 + 1,
      items.foldl (fun total item => total + item.size) 0⟩

def choiceItem : List Item → Item
  | [item] => item
  | items => ⟨true, items.foldl (fun deep item => max deep item.depth) 0 + 1,
      items.foldl (fun total item => total + item.size) (2 * stateSize)⟩

def Group.item (group : Group) : Item :=
  choiceItem (sequenceItem group.items :: group.alternatives)

/-- An item that stands the given number of times, or that often and then any number of times. -/
def Item.repeated (item : Item) (least : Nat) (most : Option Nat) : Item :=
  let copies := max 1 (most.getD (least + 1))
  ⟨true, item.depth + 1, if item.size = 0 then 0 else item.size * copies + stateSize⟩

def State.add (state : State) (item : Item) : State :=
  { state with current := { state.current with items := item :: state.current.items } }

/-- The state after the latest item has been repeated, if it may be. -/
def State.repeatLast? (state : State) (least : Nat) (most : Option Nat) : Option State :=
  match state.current.items with
  | last :: others =>
    if last.repeatable then
      some { state with current :=
        { state.current with items := last.repeated least most :: others } }
    else none
  | [] => none

/-- The text without the blanks and comments that the verbose flag makes meaningless. -/
def skipVerbose (flags : Flags) (cs : List Char) : List Char :=
  if flags.verbose then skip false cs else cs
where
  /-- Skips blanks, and inside a comment everything up to its line feed. -/
  skip (inComment : Bool) : List Char → List Char
    | [] => []
    | c :: cs =>
      if inComment then skip (c ≠ '\n') cs
      else if isBlank c then skip false cs
      else if c = '#' then skip true cs
      else c :: cs

/-- A single element of a pattern: what it is inside a class and outside. -/
inductive Primitive where
  | character (c : Char) (byte : Bool)
  | set (item : Item) (negated : Bool)
  | assertion
deriving Repr

/-- Characters with a meaning of their own. -/
def isMeta (c : Char) : Bool :=
  "\\.+*?()|[]\x7b\x7d^$#&-~".toList.contains c

/-- Characters that a backslash may stand before without meaning anything else. -/
def isEscapable (c : Char) : Bool :=
  isMeta c || (c.toNat < 128 && !c.isAlphanum && c ≠ '<' && c ≠ '>')

/-- The character of a hexadecimal escape after its letter. -/
def hexEscape? (flags : Flags) (letter : Char) (cs : List Char) :
    Option (Primitive × List Char) := do
  match skipVerbose flags cs with
  | '{' :: inside =>
    let (digits, after) ← cutAt? '}' inside
    let digits := if flags.verbose then digits.filter fun c => !isBlank c else digits
    if digits.isEmpty then none
    else
      let c ← (Literal.hexNumber? digits).bind Literal.scalar?
      return (.character c false, after)
  | cs =>
    let width := if letter = 'x' then 2 else if letter = 'u' then 4 else 8
    let digits := cs.take width
    if digits.length < width then none
    else
      let c ← (Literal.hexNumber? digits).bind Literal.scalar?
      return (.character c (letter = 'x'), cs.drop width)

/-- The class of a Unicode property after its letter. -/
def propertyEscape? (flags : Flags) (negated : Bool) (cs : List Char) :
    Option (Primitive × List Char) := do
  if !flags.unicode then none
  match skipVerbose flags cs with
  | [] => none
  | '{' :: inside =>
    let (name, after) ← cutAt? '}' inside
    let known :=
      match cutAt? ':' name, cutAt? '=' name with
      | some (property, value), _ => isPropertyValue property value
      | none, some (property, value) =>
        if property.getLast? = some '!' then isPropertyValue property.dropLast value
        else isPropertyValue property value
      | none, none => isPropertyName name
    if known then return (.set (rangesItem 150) negated, after) else none
  | c :: after =>
    if isPropertyName [c] then return (.set (rangesItem 150) negated, after) else none

/-- What may follow `\b` in braces: which side of a word is meant. -/
def boundaryNames : List String := ["start", "end", "start-half", "end-half"]

/-- The rest after `\b`, including the name of a side in braces. Braces that hold no name belong to
a repetition. -/
def boundaryEscape? (flags : Flags) (cs : List Char) : Option (Primitive × List Char) :=
  match cs with
  | '{' :: inside =>
    match skipVerbose flags inside with
    | [] => none
    | c :: _ =>
      if c.isAlpha || c = '-' then do
        let (name, after) ← cutAt? '}' inside
        if boundaryNames.contains (String.ofList name) then return (.assertion, after) else none
      else some (.assertion, cs)
  | _ => some (.assertion, cs)

/-- The element that a backslash introduces, from the character after it. -/
def escape? (flags : Flags) : List Char → Option (Primitive × List Char)
  | [] => none
  | c :: cs =>
    if c.isDigit then none
    else if c = 'x' ∨ c = 'u' ∨ c = 'U' then hexEscape? flags c cs
    else if c = 'p' ∨ c = 'P' then propertyEscape? flags (c = 'P') cs
    else if c = 'd' ∨ c = 's' ∨ c = 'w' then
      some (.set (rangesItem (if c = 'w' then 790 else if c = 'd' then 70 else 10)) false, cs)
    else if c = 'D' ∨ c = 'S' ∨ c = 'W' then
      some (.set (rangesItem (if c = 'W' then 790 else if c = 'D' then 70 else 10)) true, cs)
    else if isEscapable c then some (.character c false, cs)
    else if c = 'a' ∨ c = 'f' ∨ c = 't' ∨ c = 'n' ∨ c = 'r' ∨ c = 'v' then
      some (.character '\t' false, cs)
    else if c = 'A' ∨ c = 'z' ∨ c = 'B' ∨ c = '<' ∨ c = '>' then some (.assertion, cs)
    else if c = 'b' then boundaryEscape? flags cs
    else none

/-- An element outside a class. Bytes and negated classes of bytes could match what is no text. -/
def Primitive.item? (flags : Flags) : Primitive → Option Item
  | .character c byte =>
    if byte && !flags.unicode && c.toNat > 127 then none else some (characterItem c)
  | .set item negated => if negated && !flags.unicode then none else some item
  | .assertion => some assertionItem

def posixNames : List String :=
  ["alnum", "alpha", "ascii", "blank", "cntrl", "digit", "graph", "lower", "print", "punct",
   "space", "upper", "word", "xdigit"]

/-- The rest after a POSIX class such as `:alpha:]` or `:^alpha:]`, from its first colon. -/
def posixClass? : List Char → Option (List Char)
  | ':' :: cs => do
    let cs := if cs.head? = some '^' then cs.drop 1 else cs
    let (name, after) ← cutAt? ':' cs
    match after with
    | ']' :: others => if posixNames.contains (String.ofList name) then some others else none
    | _ => none
  | _ => none

/-- Opens a class at its bracket: an optional `^`, any hyphens, and a bracket that closes nothing
because it comes first. -/
def openClass? (state : State) (cs : List Char) : Option (State × List Char) := do
  let flags := state.flags
  let cs := skipVerbose flags cs
  if cs.isEmpty then none
  let negated := cs.head? = some '^'
  let cs := if negated then skipVerbose flags (cs.drop 1) else cs
  let afterHyphens := hyphens flags cs.length cs
  let first := afterHyphens.length = cs.length
  if afterHyphens.isEmpty then none
  let rest := if first && afterHyphens.head? = some ']' then skipVerbose flags (afterHyphens.drop 1)
    else afterHyphens
  if rest.isEmpty then none
  return ({ state with classes := ⟨0, negated⟩ :: state.classes }, rest)
where
  /-- Skips hyphens. -/
  hyphens (flags : Flags) : Nat → List Char → List Char
    | count + 1, '-' :: cs => hyphens flags count (skipVerbose flags cs)
    | _, cs => cs

def classElement? (flags : Flags) : List Char → Option (Primitive × List Char)
  | [] => none
  | '\\' :: cs => escape? flags cs
  | c :: cs => some (.character c false, cs)

def Primitive.rangeEnd? (flags : Flags) : Primitive → Option Char
  | .character c _ => if c.toNat > 127 && !flags.unicode then none else some c
  | _ => none

def Primitive.isClassMember (flags : Flags) : Primitive → Bool
  | .character c _ => c.toNat ≤ 127 || flags.unicode
  | .set _ negated => !(negated && !flags.unicode)
  | .assertion => false

/-- A character, a range or an escape inside a class. -/
def classMember? (flags : Flags) (cs : List Char) : Option (List Char) := do
  let (low, rest) ← classElement? flags cs
  let rest := skipVerbose flags rest
  if rest.isEmpty then none
  let next := (skipVerbose flags (rest.drop 1)).head?
  if rest.head? ≠ some '-' ∨ next = some ']' ∨ next = some '-' then
    if low.isClassMember flags then some rest else none
  else
    let (high, after) ← classElement? flags (skipVerbose flags (rest.drop 1))
    if (← low.rangeEnd? flags) ≤ (← high.rangeEnd? flags) then some after else none

/-- Closes the innermost class; the outermost one becomes an item. -/
def closeClass? (state : State) : Option State :=
  match state.classes with
  | [] => none
  | [last] =>
    if last.negated && !state.flags.unicode then none
    else some ({ state with classes := [] }.add ⟨true, last.depth + 1, (rangesItem 4).size⟩)
  | last :: enclosing :: others =>
    some { state with classes :=
      { enclosing with depth := max enclosing.depth (last.depth + 1) } :: others }

def classStep (state : State) (cs : List Char) : Option (State × List Char) :=
  match skipVerbose state.flags cs with
  | [] => none
  | '[' :: rest =>
    match posixClass? rest with
    | some after => some (state, after)
    | none => openClass? state rest
  | ']' :: rest => (closeClass? state).map (·, rest)
  | '&' :: '&' :: rest => some (state, rest)
  | '-' :: '-' :: rest => some (state, rest)
  | '~' :: '~' :: rest => some (state, rest)
  | rest => (classMember? state.flags rest).map (state, ·)

/-- A letter beyond ASCII, for the names of groups: symbols, punctuation and combining marks are none. -/
def isForeignLetter (c : Char) : Bool :=
  let n := c.toNat
  n ≥ 0xAA && !(0x300 ≤ n && n ≤ 0x36F && n ≠ 0x345) && !(0x483 ≤ n && n ≤ 0x489)
    && !(0x1AB0 ≤ n && n ≤ 0x1ACE) && !(0x1DC0 ≤ n && n ≤ 0x1DFF) && !(0x20A0 ≤ n && n ≤ 0x20F0)
    && !(0xAB ≤ n && n ≤ 0xB4) && !(0xB6 ≤ n && n ≤ 0xB9) && !(0xBB ≤ n && n ≤ 0xBF)
    && n ≠ 0xD7 && n ≠ 0xF7 && !(0x2000 ≤ n && n ≤ 0x2070) && !(0x2190 ≤ n && n ≤ 0x2BFF)
    && !(0x3000 ≤ n && n ≤ 0x3004) && !(0x3008 ≤ n && n ≤ 0x3020) && !(0xE000 ≤ n && n ≤ 0xF8FF)
    && !(0xFE00 ≤ n && n ≤ 0xFE6F) && !(0x1F000 ≤ n && n ≤ 0x1FAFF)

def isGroupName : List Char → Bool
  | [] => false
  | first :: others =>
    (first = '_' || first.isAlpha || isForeignLetter first) &&
      others.all fun c =>
        c = '_' || c = '.' || c = '[' || c = ']' || c.isAlphanum || isForeignLetter c

/-- Flag letters up to the character that ends them, each at most once, with at most one hyphen and
never at the end. The result is the change of the flags, whether there were any letters, the
character that ended them, and the rest. -/
def readFlags? (seen : List Char) (negative : Bool) (flags : Flags) :
    List Char → Option (Flags × Bool × Char × List Char)
  | [] => none
  | c :: cs =>
    if c = ':' ∨ c = ')' then
      if seen.head? = some '-' then none else some (flags, !seen.isEmpty, c, cs)
    else if seen.contains c then none
    else if c = '-' then readFlags? (c :: seen) true flags cs
    else if c = 'x' then readFlags? (c :: seen) negative { flags with verbose := !negative } cs
    else if c = 'u' then readFlags? (c :: seen) negative { flags with unicode := !negative } cs
    else if c = 'i' ∨ c = 'm' ∨ c = 's' ∨ c = 'U' ∨ c = 'R' then
      readFlags? (c :: seen) negative flags cs
    else none

def State.openGroup (state : State) (flags : Flags) : State :=
  { state with
    current := ⟨[], [], state.flags⟩
    outer := state.current :: state.outer
    flags }

def openNamed? (state : State) (cs : List Char) : Option (State × List Char) := do
  let (name, rest) ← cutAt? '>' cs
  if isGroupName name && !state.names.contains name then
    return ({ state with names := name :: state.names }.openGroup state.flags, rest)
  else none

/-- What follows the parenthesis that opens a group, or the flags that stand alone. -/
def openGroup? (state : State) (cs : List Char) : Option (State × List Char) :=
  match skipVerbose state.flags cs with
  | '?' :: 'P' :: '<' :: rest => openNamed? state rest
  | '?' :: '=' :: _ => none
  | '?' :: '!' :: _ => none
  | '?' :: '<' :: '=' :: _ => none
  | '?' :: '<' :: '!' :: _ => none
  | '?' :: '<' :: rest => openNamed? state rest
  | '?' :: rest => do
    let (flags, any, ended, after) ← readFlags? [] false state.flags rest
    if ended = ':' then return (state.openGroup flags, after)
    else if any then return ({ state with flags }.add ⟨false, 0, 0⟩, after)
    else none
  | rest => some (state.openGroup state.flags, rest)

def State.closeGroup? (state : State) : Option State :=
  match state.outer with
  | [] => none
  | enclosing :: others =>
    let inner := state.current.item
    some ({ state with current := enclosing, outer := others, flags := state.current.outerFlags }.add
      ⟨true, inner.depth + 1, if inner.size = 0 then 0 else inner.size + 2 * stateSize⟩)

/-- Starts the next alternative of the innermost group. -/
def State.nextAlternative (state : State) : State :=
  { state with current :=
    { state.current with
      alternatives := sequenceItem state.current.items :: state.current.alternatives
      items := [] } }

/-- A count inside braces, with the blanks around it; at least one digit, and below 2^32. -/
def count? (cs : List Char) : Option (Nat × List Char) :=
  let cs := cs.dropWhile isBlank
  let digits := cs.takeWhile Char.isDigit
  let value := digits.foldl (fun total c => total * 10 + (c.toNat - '0'.toNat)) 0
  if digits.isEmpty || value ≥ 4294967296 then none
  else some (value, (cs.drop digits.length).dropWhile isBlank)

/-- The rest after a question mark that makes a repetition lazy. -/
def dropLazy (flags : Flags) (cs : List Char) : List Char :=
  match skipVerbose flags cs with
  | '?' :: rest => rest
  | rest => rest

def countedRepetition? (state : State) (cs : List Char) : Option (State × List Char) := do
  let flags := state.flags
  let (least, rest) ← count? (skipVerbose flags cs)
  match rest with
  | '}' :: after => return (← state.repeatLast? least (some least), dropLazy flags after)
  | ',' :: more =>
    match skipVerbose flags more with
    | '}' :: after => return (← state.repeatLast? least none, dropLazy flags after)
    | more =>
      let (most, rest) ← count? more
      match rest with
      | '}' :: after =>
        if least ≤ most then return (← state.repeatLast? least (some most), dropLazy flags after)
        else none
      | _ => none
  | _ => none

def groupStep (state : State) (cs : List Char) : Option (State × List Char) :=
  match skipVerbose state.flags cs with
  | [] => some (state, [])
  | '(' :: rest => openGroup? state rest
  | ')' :: rest => state.closeGroup?.map (·, rest)
  | '|' :: rest => some (state.nextAlternative, rest)
  | '[' :: rest => openClass? state rest
  | '{' :: rest => countedRepetition? state rest
  | '\\' :: rest => do
    let (element, after) ← escape? state.flags rest
    return (state.add (← element.item? state.flags), after)
  | c :: rest =>
    if c = '?' ∨ c = '*' ∨ c = '+' then
      (state.repeatLast? 0 (some 1)).map fun state =>
        (state, if rest.head? = some '?' then rest.drop 1 else rest)
    else if c = '.' then
      if state.flags.unicode then some (state.add (rangesItem 10), rest) else none
    else if c = '^' ∨ c = '$' then some (state.add assertionItem, rest)
    else some (state.add (characterItem c), rest)

def step (state : State) (cs : List Char) : Option (State × List Char) :=
  if state.classes.isEmpty then groupStep state cs else classStep state cs

/-- Takes steps until the text is used up. Every step takes a character, so as many steps as there
are characters are enough. -/
def run? : Nat → State → List Char → Option State
  | _, state, [] => some state
  | 0, _, _ :: _ => none
  | steps + 1, state, cs => do
    let (next, rest) ← step state cs
    run? steps next rest

def State.initial : State :=
  ⟨⟨[], [], ⟨false, true⟩⟩, [], [], ⟨false, true⟩, []⟩

/-- Whether a text passes for a regular expression. -/
def isValid (pattern : String) : Bool :=
  let cs := pattern.toList
  match run? cs.length State.initial cs with
  | none => false
  | some last =>
    last.outer.isEmpty && last.classes.isEmpty && last.current.item.depth ≤ depthLimit
      && last.current.item.size ≤ sizeLimit

/-- What is wrong with a text that does not pass for a regular expression. -/
def fault? (pattern : String) : Option String :=
  if isValid pattern then none else some "not a regular expression"

end ApiDef.Pattern
