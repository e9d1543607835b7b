import ApiDef.Proofs.Token.Partition
set_option autoImplicit false

/-!
# Literals in the text around them

A literal shows where it ends: it is scanned alike where it was found, alone, and in front of a blank.
A string that is read as a literal is one lexeme. Where reading it fails, the lexeme begins with
everything that was read, and a string that is not closed ends for both at the same place.
-/

namespace ApiDef

namespace Text.Literal

/-!
## Literals that end on their own
-/

variable {cs passed rest : List Char} {literal : Literal}

theorem lineFeed_not_mem_of_scan (found : scan cs = .found literal passed rest) : '\n' ∉ passed := by
  rcases scan_cases found with
    ⟨quote, others, contents, inside, isQuote, start, rfl, scanned⟩ | number | ⟨word, member, rfl⟩
  · have oneLine := Token.lineFeed_not_mem_splitString quote others
    rw [Token.splitString_of_scanContents isQuote scanned] at oneLine
    refine List.not_mem_cons_of_ne_of_not_mem ?_ oneLine
    rcases isQuote with rfl | rfl <;> decide
  · exact fun inside => absurd (number '\n' inside) (by decide)
  · have words : ∀ word ∈ ["true", "false", "null"], '\n' ∉ word.toList := by decide
    exact words word member

/-- A blank continues neither a word nor a number. -/
theorem delimits_of_isBlank {blank : Char} (isBlank : isBlank blank = true) (others : List Char) :
    Delimits (blank :: others) := by
  apply delimits_cons
  · cases inside : isIdentifierChar blank with
    | false => rfl
    | true =>
      rw [Reader.not_isBlank_of_isIdentifierChar inside] at isBlank
      cases isBlank
  · rintro rfl
    exact absurd isBlank (by decide)

/-- A literal is scanned again from what was passed over, whether nothing or a blank follows, and it
stands on one line. -/
theorem scan_alone_or_before_blank (found : scan cs = .found literal passed rest) :
    cs = passed ++ rest
      ∧ scan passed = .found literal passed []
      ∧ (∀ blank others, isBlank blank = true →
        scan (passed ++ blank :: others) = .found literal passed (blank :: others))
      ∧ '\n' ∉ passed := by
  refine ⟨?_, scan_passed_nil found, ?_, lineFeed_not_mem_of_scan found⟩
  · have whole := whole_scan cs
    rw [found] at whole
    exact whole.symm
  · intro blank others isBlank
    exact scan_passed found (delimits_of_isBlank isBlank others)

/-- The point behind the exponent ends the number; so does the no-break space. -/
theorem scan_alone_or_before_blank_exponent :
    scan "-3.25e+7.x".toList = .found (.number "-3.25e+7") "-3.25e+7".toList ".x".toList
      ∧ scan "-3.25e+7".toList = .found (.number "-3.25e+7") "-3.25e+7".toList []
      ∧ scan "-3.25e+7\u00a0e".toList
        = .found (.number "-3.25e+7") "-3.25e+7".toList "\u00a0e".toList
      ∧ '\n' ∉ "-3.25e+7".toList := by
  have found : scan "-3.25e+7.x".toList
      = .found (.number "-3.25e+7") "-3.25e+7".toList ".x".toList := rfl
  obtain ⟨-, alone, beforeBlank, oneLine⟩ := scan_alone_or_before_blank found
  exact ⟨found, alone, beforeBlank '\u00a0' ['e'] (by decide), oneLine⟩

end Text.Literal

namespace Token

open Text

/-!
## Strings as lexemes
-/

variable {quote : Char} {cs passed rest : List Char}

/-- The digits of an escape that breaks off are inside the string. -/
theorem leadingHex_within_splitString (isQuote : quote = '"' ∨ quote = '\'') (cs : List Char) :
    '\\' :: 'u' :: Literal.leadingHex cs <+: (splitString quote ('\\' :: 'u' :: cs)).1 := by
  have digits := splitString_word (cs.drop (Literal.leadingHex cs).length) isQuote
    (Literal.isIdentifierChar_of_mem_leadingHex cs)
  rw [Literal.leadingHex_append] at digits
  rw [splitString_escaped _ (by decide), digits]
  exact ⟨_, rfl⟩

/-- Where the contents of a string are refused, the lexeme has begun with all that was passed over; a
string that is not closed is passed over whole. -/
theorem splitString_of_failed {fault : Literal.Fault} (isQuote : quote = '"' ∨ quote = '\'')
    (failed : Literal.scanContents quote cs = .failed fault passed rest) :
    passed <+: (splitString quote cs).1
      ∧ (fault = .unterminated quote → splitString quote cs = (passed, rest)) := by
  -- what the lexeme takes whole in front of the rest of the string, it takes in front of its share
  have passOver {before others later : List Char}
      (taken : splitString quote (before ++ others)
        = (before ++ (splitString quote others).1, (splitString quote others).2))
      (reached : later <+: (splitString quote others).1
        ∧ (fault = .unterminated quote → splitString quote others = (later, rest))) :
      before ++ later <+: (splitString quote (before ++ others)).1
        ∧ (fault = .unterminated quote
          → splitString quote (before ++ others) = (before ++ later, rest)) := by
    rw [taken]
    refine ⟨(List.prefix_append_right_inj before).mpr reached.1, fun unclosed => ?_⟩
    rw [reached.2 unclosed]
  fun_induction Literal.scanContents quote cs generalizing passed with
  | case1 =>
    obtain ⟨-, rfl, rfl⟩ := Literal.Scan.failed.inj failed
    exact ⟨List.nil_prefix, fun _ => rfl⟩
  | case2 others =>
    obtain ⟨-, rfl, rfl⟩ := Literal.Scan.failed.inj failed
    refine ⟨List.nil_prefix, fun _ => ?_⟩
    rw [splitString.eq_def]
    exact if_pos rfl
  | case3 => cases failed
  | case4 =>
    obtain ⟨rfl, rfl, -⟩ := Literal.Scan.failed.inj failed
    exact ⟨List.prefix_rfl, by rintro ⟨⟩⟩
  | case5 a b d e others character decoded _ notQuote ih =>
    obtain ⟨later, mapped, rfl⟩ := Literal.Scan.after_eq_failed failed
    obtain ⟨code, hex, -⟩ := Option.bind_eq_some_iff.mp decoded
    exact passOver (splitString_hex isQuote hex others) (ih (Literal.Scan.map_eq_failed mapped))
  | case6 a b d e others =>
    obtain ⟨rfl, rfl, -⟩ := Literal.Scan.failed.inj failed
    exact ⟨leadingHex_within_splitString isQuote (a :: b :: d :: e :: others), by rintro ⟨⟩⟩
  | case7 others =>
    obtain ⟨rfl, rfl, -⟩ := Literal.Scan.failed.inj failed
    exact ⟨leadingHex_within_splitString isQuote others, by rintro ⟨⟩⟩
  | case8 escaped others _ _ character decoded _ notQuote ih =>
    obtain ⟨later, mapped, rfl⟩ := Literal.Scan.after_eq_failed failed
    exact passOver (splitString_escaped _ (Literal.ne_lineFeed_of_shortEscape? decoded))
      (ih (Literal.Scan.map_eq_failed mapped))
  | case9 escaped others =>
    obtain ⟨rfl, rfl, -⟩ := Literal.Scan.failed.inj failed
    refine ⟨?_, by rintro ⟨⟩⟩
    by_cases lineFeed : escaped = '\n'
    · subst lineFeed
      exact List.prefix_rfl
    · rw [splitString_escaped _ lineFeed]
      exact ⟨_, rfl⟩
  | case10 c others notLineFeed notQuote notEscape ih =>
    obtain ⟨later, mapped, rfl⟩ := Literal.Scan.after_eq_failed failed
    exact passOver (splitString_char _ notLineFeed notEscape notQuote)
      (ih (Literal.Scan.map_eq_failed mapped))

/-- A text that starts with a quote is read as a literal over exactly the characters of its first
lexeme. When it cannot be read, the lexeme begins with what was read, and it ends there if the string is
not closed. -/
theorem firstLexeme_of_scan (isQuote : quote = '"' ∨ quote = '\'') (cs : List Char) :
    (∀ literal passed rest, Literal.scan (quote :: cs) = .found literal passed rest →
        (passed, rest) = (quote :: (splitString quote cs).1, (splitString quote cs).2)
          ∧ firstLexeme quote cs = (⟨.string, passed⟩, rest))
      ∧ ∀ fault passed rest, Literal.scan (quote :: cs) = .failed fault passed rest →
        passed <+: (firstLexeme quote cs).1.text
          ∧ (fault = .unterminated quote → firstLexeme quote cs = (⟨.string, passed⟩, rest)) := by
  rw [Literal.scan, if_pos isQuote, firstLexeme_of_quote isQuote]
  constructor
  · intro literal passed rest found
    obtain ⟨inside, mapped, rfl⟩ := Literal.Scan.after_eq_found found
    obtain ⟨contents, scanned, -⟩ := Literal.Scan.map_eq_found mapped
    rw [splitString_of_scanContents isQuote scanned]
    exact ⟨rfl, rfl⟩
  · intro fault passed rest failed
    obtain ⟨inside, mapped, rfl⟩ := Literal.Scan.after_eq_failed failed
    obtain ⟨within, closed⟩ := splitString_of_failed isQuote (Literal.Scan.map_eq_failed mapped)
    refine ⟨(List.prefix_append_right_inj [quote]).mpr within, fun unclosed => ?_⟩
    rw [closed unclosed]
    rfl

/-- A string with an escaped quote, the other quote and a hexadecimal escape; and one that its line
ends. -/
theorem firstLexeme_of_scan_escapes :
    Literal.scan ['\'', 'a', '\\', '\'', '"', '\\', 'u', '0', '0', '4', '1', '\'', 'b']
        = .found (.string (String.ofList ['a', '\'', '"', 'A']))
          ['\'', 'a', '\\', '\'', '"', '\\', 'u', '0', '0', '4', '1', '\''] ['b']
      ∧ firstLexeme '\'' ['a', '\\', '\'', '"', '\\', 'u', '0', '0', '4', '1', '\'', 'b']
        = (⟨.string, ['\'', 'a', '\\', '\'', '"', '\\', 'u', '0', '0', '4', '1', '\'']⟩, ['b'])
      ∧ Literal.scan ['"', 'a', '\\', '"', '\n', 'b']
        = .failed (.unterminated '"') ['"', 'a', '\\', '"'] ['\n', 'b']
      ∧ firstLexeme '"' ['a', '\\', '"', '\n', 'b']
        = (⟨.string, ['"', 'a', '\\', '"']⟩, ['\n', 'b']) := by
  have found : Literal.scan ['\'', 'a', '\\', '\'', '"', '\\', 'u', '0', '0', '4', '1', '\'', 'b']
      = .found (.string (String.ofList ['a', '\'', '"', 'A']))
        ['\'', 'a', '\\', '\'', '"', '\\', 'u', '0', '0', '4', '1', '\''] ['b'] := by
    have escaped : Literal.shortEscape? '\'' = some '\'' := by decide
    have hex : (Literal.hexNumber? ['0', '0', '4', '1']).bind Literal.scalar? = some 'A' := by decide
    rw [Literal.scan, if_pos (.inr rfl), Literal.scanContents_plain (by decide) (by decide) (by decide),
      Literal.scanContents_escaped (by decide) escaped,
      Literal.scanContents_plain (by decide) (by decide) (by decide),
      Literal.scanContents_hex (by decide) hex, Literal.scanContents_close (by decide)]
    rfl
  have failed : Literal.scan ['"', 'a', '\\', '"', '\n', 'b']
      = .failed (.unterminated '"') ['"', 'a', '\\', '"'] ['\n', 'b'] := by
    have escaped : Literal.shortEscape? '"' = some '"' := by decide
    have ended : Literal.scanContents '"' ['\n', 'b']
        = .failed (.unterminated '"') [] ['\n', 'b'] := by
      rw [Literal.scanContents.eq_def]
      exact if_pos rfl
    rw [Literal.scan, if_pos (.inl rfl), Literal.scanContents_plain (by decide) (by decide) (by decide),
      Literal.scanContents_escaped (by decide) escaped, ended]
    rfl
  have whole := (firstLexeme_of_scan (.inr rfl) _).1 _ _ _ found
  have unclosed := (firstLexeme_of_scan (.inl rfl) _).2 _ _ _ failed
  exact ⟨found, whole.2, failed, unclosed.2 rfl⟩

end Token

end ApiDef
