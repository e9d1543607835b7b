import ApiDef.Text.Blank
import ApiDef.Text.Identifier
set_option autoImplicit false

/-!
# Tokens

Every text, however broken, is a sequence of lexemes that concatenate to it. A token is a lexeme
with a kind; a word gets its kind from its immediate neighbourhood alone, so that unfinished text
keeps its kinds while it is typed.
-/

namespace ApiDef

open Text

/-- What a token is. -/
inductive Token.Kind where
  | blank
  | comment
  | word
  | keyword
  | tagName
  | string
  | methodName
  | typeName
  | enumName
  | dataTypeName
  | openBrace
  | closeBrace
  | colon
  | other
deriving DecidableEq, Repr

/-- A classified piece of text. -/
structure Token where
  kind : Token.Kind
  value : String
deriving DecidableEq, Repr

namespace Token

def Kind.label : Kind → String
  | blank => "whitespace"
  | comment => "comment"
  | word => "id"
  | keyword => "keyword"
  | tagName => "annotation_type"
  | string => "string"
  | methodName => "method_name"
  | typeName => "return_type"
  | enumName => "enum_name"
  | dataTypeName => "datatype_name"
  | openBrace => "special_start"
  | closeBrace => "special_end"
  | colon => "special_colon"
  | other => "special_other"

def Kind.isTrivia : Kind → Bool
  | blank | comment => true
  | _ => false

def reservedWord : String := "enum"

/-- What a lexeme looks like on its own, before its neighbours are considered. -/
inductive Shape where
  | blank
  | comment
  | tag
  | string
  | word
  | mark
deriving DecidableEq, Repr

/-- A piece of text that is never divided further. -/
structure Lexeme where
  shape : Shape
  text : List Char
deriving DecidableEq, Repr

/-- The part of a quoted string after its opening quote, and the rest. A backslash protects the next
character of the line; a string that is not closed ends with its line. -/
def splitString (quote : Char) : List Char → List Char × List Char
  | [] => ([], [])
  | c :: rest =>
    if c = '\n' then ([], c :: rest)
    else if c = '\\' then
      match rest with
      | [] => ([c], [])
      | d :: others =>
        if d = '\n' then ([c], d :: others)
        else
          let (inside, after) := splitString quote others
          (c :: d :: inside, after)
    else if c = quote then ([c], rest)
    else
      let (inside, after) := splitString quote rest
      (c :: inside, after)

theorem splitString_append (quote : Char) (cs : List Char) :
    (splitString quote cs).1 ++ (splitString quote cs).2 = cs := by
  fun_induction splitString quote cs <;> simp_all

/-- The lexeme at the start of a text, and the rest. -/
def firstLexeme (c : Char) (cs : List Char) : Lexeme × List Char :=
  if isBlank c then (⟨.blank, c :: cs.takeWhile isBlank⟩, cs.dropWhile isBlank)
  else if startsComment (c :: cs) then
    (⟨.comment, c :: cs.takeWhile (· ≠ '\n')⟩, cs.dropWhile (· ≠ '\n'))
  else if c = '@' then
    (⟨.tag, c :: cs.takeWhile isIdentifierChar⟩, cs.dropWhile isIdentifierChar)
  else if c = '"' ∨ c = '\'' then
    (⟨.string, c :: (splitString c cs).1⟩, (splitString c cs).2)
  else if isIdentifierChar c then
    (⟨.word, c :: cs.takeWhile isIdentifierChar⟩, cs.dropWhile isIdentifierChar)
  else (⟨.mark, [c]⟩, cs)

/-- Nothing is lost: the lexeme and the rest are the text. -/
theorem firstLexeme_append (c : Char) (cs : List Char) :
    (firstLexeme c cs).1.text ++ (firstLexeme c cs).2 = c :: cs := by
  unfold firstLexeme
  repeat' split
  all_goals simp [splitString_append]

theorem firstLexeme_text_ne_nil (c : Char) (cs : List Char) :
    (firstLexeme c cs).1.text ≠ [] := by
  unfold firstLexeme
  repeat' split
  all_goals simp

theorem firstLexeme_rest_length (c : Char) (cs : List Char) :
    (firstLexeme c cs).2.length < (c :: cs).length := by
  have whole := congrArg List.length (firstLexeme_append c cs)
  have nonempty := List.length_pos_iff.mpr (firstLexeme_text_ne_nil c cs)
  rw [List.length_append] at whole
  omega

def lexemes : List Char → List Lexeme
  | [] => []
  | c :: cs => (firstLexeme c cs).1 :: lexemes (firstLexeme c cs).2
termination_by cs => cs.length
decreasing_by exact firstLexeme_rest_length c cs

def nextChar : List Lexeme → Option Char
  | [] => none
  | ⟨.blank, _⟩ :: others => nextChar others
  | ⟨_, text⟩ :: _ => text.head?

/-- The kind of a word between its neighbours: the kind of the last token that is not trivia, and the
first character after any blanks. -/
def wordKind (word : String) (previous : Option Kind) (next : Option Char) : Kind :=
  if word = reservedWord then .keyword
  else if next = some '(' then .methodName
  else if previous = some .keyword then .enumName
  else if next = some '{' then .dataTypeName
  else if previous = some .colon then .typeName
  else .word

/-- The kind of a single character that belongs to no other lexeme. -/
def markKind (text : List Char) : Kind :=
  if text = ['{'] then .openBrace
  else if text = ['}'] then .closeBrace
  else if text = [':'] then .colon
  else .other

def Lexeme.kind (lexeme : Lexeme) (previous : Option Kind) (next : Option Char) : Kind :=
  match lexeme.shape with
  | .blank => .blank
  | .comment => .comment
  | .tag => .tagName
  | .string => .string
  | .word => wordKind (String.ofList lexeme.text) previous next
  | .mark => markKind lexeme.text

/-- Gives every lexeme its kind, from left to right. -/
def classify (previous : Option Kind) : List Lexeme → List Token
  | [] => []
  | lexeme :: others =>
    let kind := lexeme.kind previous (nextChar others)
    ⟨kind, String.ofList lexeme.text⟩ ::
      classify (if kind.isTrivia then previous else some kind) others

def tokenize (text : String) : List Token :=
  classify none (lexemes text.toList)

/-- The names of the data types and enums that a text declares, each at its first place only. -/
def declaredNames (text : String) : List String :=
  (tokenize text).foldl
    (fun names token =>
      if (token.kind = .dataTypeName ∨ token.kind = .enumName) ∧ token.value ∉ names then
        names ++ [token.value]
      else names)
    []

end Token

end ApiDef
