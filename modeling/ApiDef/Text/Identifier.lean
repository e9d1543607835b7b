set_option autoImplicit false

/-!
# Identifiers

An identifier is an ASCII letter or underscore followed by ASCII letters, digits and underscores.
-/

namespace ApiDef.Text

def isIdentifierStart (c : Char) : Bool :=
  c.isAlpha || c = '_'

def isIdentifierChar (c : Char) : Bool :=
  c.isAlphanum || c = '_'

def isIdentifier (text : String) : Bool :=
  match text.toList with
  | [] => false
  | first :: others => isIdentifierStart first && others.all isIdentifierChar

theorem isIdentifierChar_of_isIdentifierStart {c : Char} (start : isIdentifierStart c = true) :
    isIdentifierChar c = true := by
  simp only [isIdentifierStart, Bool.or_eq_true] at start
  simp only [isIdentifierChar, Char.isAlphanum, Bool.or_eq_true]
  rcases start with letter | underscore
  · exact Or.inl (Or.inl letter)
  · exact Or.inr underscore

def afterWord? (word : String) (cs : List Char) : Option (List Char) :=
  if word.toList.isPrefixOf cs then
    let rest := cs.drop word.toList.length
    if (rest.head?.map isIdentifierChar).getD false then none else some rest
  else none

theorem eq_append_of_afterWord? {word : String} {cs rest : List Char}
    (after : afterWord? word cs = some rest) : cs = word.toList ++ rest := by
  unfold afterWord? at after
  split at after
  next starts =>
    obtain ⟨others, whole⟩ := List.isPrefixOf_iff_prefix.mp starts
    simp only at after
    split at after
    · simp at after
    · simp only [Option.some.injEq] at after
      rw [← whole, List.drop_left] at after
      rw [← whole, after]
  next => simp at after

end ApiDef.Text
