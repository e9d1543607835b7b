import ApiDef.Text.Quoted
set_option autoImplicit false

/-!
# JSON values

The values that are written as JSON, and their two written forms: a compact one without blanks, and
a pretty one with a line for every element. Both write members in the order in which they are held.
-/

namespace ApiDef

/-- A JSON value. -/
inductive Json where
  | null
  | bool (value : Bool)
  | number (value : Int)
  | string (text : String)
  | array (elements : List Json)
  | object (members : List (String × Json))
deriving Repr, Inhabited

namespace Json

/-- How one character is written between quotes: only quotes, backslashes and the characters below
the space are escaped. -/
def escape (c : Char) : List Char :=
  if c = '"' then ['\\', '"']
  else if c = '\\' then ['\\', '\\']
  else if c = '\x08' then ['\\', 'b']
  else if c = '\t' then ['\\', 't']
  else if c = '\n' then ['\\', 'n']
  else if c = '\x0c' then ['\\', 'f']
  else if c = '\r' then ['\\', 'r']
  else if c.toNat < 0x20 then '\\' :: 'u' :: Text.fourHexDigits c.toNat
  else [c]

def quoted (text : String) : List Char :=
  '"' :: (text.toList.flatMap escape ++ ['"'])

/-- The two written forms. -/
inductive Style where
  | compact
  | pretty
deriving DecidableEq, Repr

namespace Style

/-- What stands before an element or a closing bracket at some depth. -/
def lineBreak : Style → Nat → List Char
  | compact, _ => []
  | pretty, depth => '\n' :: List.replicate (2 * depth) ' '

def separator : Style → List Char
  | compact => [':']
  | pretty => [':', ' ']

end Style

mutual

def chars (style : Style) (depth : Nat) : Json → List Char
  | null => ['n', 'u', 'l', 'l']
  | bool true => ['t', 'r', 'u', 'e']
  | bool false => ['f', 'a', 'l', 's', 'e']
  | number value => (toString value).toList
  | string text => quoted text
  | array [] => ['[', ']']
  | array (first :: others) =>
    '[' :: (style.lineBreak (depth + 1) ++ (chars style (depth + 1) first
      ++ (elementChars style (depth + 1) others ++ (style.lineBreak depth ++ [']']))))
  | object [] => ['{', '}']
  | object ((key, first) :: others) =>
    '{' :: (style.lineBreak (depth + 1) ++ (quoted key ++ (style.separator
      ++ (chars style (depth + 1) first
        ++ (memberChars style (depth + 1) others ++ (style.lineBreak depth ++ ['}']))))))

def elementChars (style : Style) (depth : Nat) : List Json → List Char
  | [] => []
  | element :: others =>
    ',' :: (style.lineBreak depth ++ (chars style depth element ++ elementChars style depth others))

def memberChars (style : Style) (depth : Nat) : List (String × Json) → List Char
  | [] => []
  | (key, value) :: others =>
    ',' :: (style.lineBreak depth ++ (quoted key ++ (style.separator
      ++ (chars style depth value ++ memberChars style depth others))))

end

def text (style : Style) (value : Json) : String :=
  String.ofList (chars style 0 value)

end Json

end ApiDef
