set_option autoImplicit false

/-!
# Names of Unicode properties

The names that a pattern may give between braces after `\p`: general categories, scripts, and binary
properties. Names are compared without case, spaces, hyphens and underscores.
-/

namespace ApiDef.Pattern

def categoryNames : List String :=
  ["c", "cc", "cf", "cn", "co", "l", "lc", "ll", "lm", "lo", "lt", "lu", "m", "mc", "me",
   "mn", "n", "nd", "nl", "no", "p", "pc", "pd", "pe", "pf", "pi", "po", "ps", "s", "sc", "sk", "sm",
   "so", "z", "zl", "zp", "zs", "other", "control", "cntrl", "format", "unassigned", "privateuse",
   "letter", "casedletter", "lowercaseletter", "modifierletter", "otherletter",
   "titlecaseletter", "uppercaseletter", "mark", "combiningmark", "spacingmark", "enclosingmark",
   "nonspacingmark", "number", "decimalnumber", "digit", "letternumber", "othernumber",
   "punctuation", "punct", "connectorpunctuation", "dashpunctuation", "closepunctuation",
   "finalpunctuation", "initialpunctuation", "otherpunctuation", "openpunctuation", "symbol",
   "currencysymbol", "modifiersymbol", "mathsymbol", "othersymbol", "separator", "lineseparator",
   "paragraphseparator", "spaceseparator", "any", "assigned", "ascii"]

def scriptNames : List String :=
  ["adlam", "ahom", "anatolianhieroglyphs", "arabic", "armenian", "avestan", "balinese", "bamum",
   "bassavah", "batak", "bengali", "bhaiksuki", "bopomofo", "brahmi", "braille", "buginese", "buhid",
   "canadianaboriginal", "carian", "caucasianalbanian", "chakma", "cham", "cherokee", "chorasmian",
   "common", "coptic", "cuneiform", "cypriot", "cyprominoan", "cyrillic", "deseret", "devanagari",
   "divesakuru", "dogra", "duployan", "egyptianhieroglyphs", "elbasan", "elymaic", "ethiopic",
   "garay", "georgian", "glagolitic", "gothic", "grantha", "greek", "gujarati", "gunjalagondi",
   "gurmukhi", "gurungkhema", "han", "hangul", "hanifirohingya", "hanunoo", "hatran", "hebrew",
   "hiragana", "imperialaramaic", "inherited", "inscriptionalpahlavi", "inscriptionalparthian",
   "javanese", "kaithi", "kannada", "katakana", "kawi", "kayahli", "kharoshthi", "khitansmallscript",
   "khmer", "khojki", "khudawadi", "kiratrai", "lao", "latin", "lepcha", "limbu", "lineara", "linearb",
   "lisu", "lycian", "lydian", "mahajani", "makasar", "malayalam", "mandaic", "manichaean", "marchen",
   "masaramgondi", "medefaidrin", "meeteimayek", "mendekikakui", "meroiticcursive",
   "meroitichieroglyphs", "miao", "modi", "mongolian", "mro", "multani", "myanmar", "nabataean",
   "nagmundari", "nandinagari", "newa", "newtailue", "nko", "nushu", "nyiakengpuachuehmong", "ogham",
   "olchiki", "oldhungarian", "olditalic", "oldnortharabian", "oldpermic", "oldpersian", "oldsogdian",
   "oldsoutharabian", "oldturkic", "olduyghur", "olonal", "oriya", "osage", "osmanya", "pahawhhmong",
   "palmyrene", "paucinhau", "phagspa", "phoenician", "psalterpahlavi", "rejang", "runic", "samaritan",
   "saurashtra", "sharada", "shavian", "siddham", "signwriting", "sinhala", "sogdian", "sorasompeng",
   "soyombo", "sundanese", "sunuwar", "sylotinagri", "syriac", "tagalog", "tagbanwa", "taile",
   "taitham", "taiviet", "takri", "tamil", "tangsa", "tangut", "telugu", "thaana", "thai", "tibetan",
   "tifinagh", "tirhuta", "todhri", "toto", "tulutigalari", "ugaritic", "vai", "vithkuqi", "wancho",
   "warangciti", "yezidi", "yi", "zanabazarsquare"]

def scriptCodes : List String :=
  ["adlm", "aghb", "ahom", "arab", "armi", "armn", "avst", "bali", "bamu", "bass", "batk", "beng",
   "bhks", "bopo", "brah", "brai", "bugi", "buhd", "cakm", "cans", "cari", "cham", "cher", "chrs",
   "copt", "cpmn", "cprt", "cyrl", "deva", "diak", "dogr", "dsrt", "dupl", "egyp", "elba", "elym",
   "ethi", "geor", "glag", "gong", "gonm", "goth", "gran", "grek", "gujr", "guru", "hang", "hani",
   "hano", "hatr", "hebr", "hira", "hluw", "hmng", "hmnp", "hung", "ital", "java", "kali", "kana",
   "kawi", "khar", "khmr", "khoj", "kits", "knda", "kthi", "lana", "laoo", "latn", "lepc", "limb",
   "lina", "linb", "lisu", "lyci", "lydi", "mahj", "maka", "mand", "mani", "marc", "medf", "mend",
   "merc", "mero", "mlym", "modi", "mong", "mroo", "mtei", "mult", "mymr", "nagm", "nand", "narb",
   "nbat", "newa", "nkoo", "nshu", "ogam", "olck", "orkh", "orya", "osge", "osma", "ougr", "palm",
   "pauc", "perm", "phag", "phli", "phlp", "phnx", "plrd", "prti", "qaac", "qaai", "rjng", "rohg",
   "runr", "samr", "sarb", "saur", "sgnw", "shaw", "shrd", "sidd", "sind", "sinh", "sogd", "sogo",
   "sora", "soyo", "sund", "sylo", "syrc", "tagb", "takr", "tale", "talu", "taml", "tang", "tavt",
   "telu", "tfng", "tglg", "thaa", "thai", "tibt", "tirh", "tnsa", "toto", "ugar", "vaii", "vith",
   "wara", "wcho", "xpeo", "xsux", "yezi", "yiii", "zanb", "zinh", "zyyy"]

def binaryNames : List String :=
  ["asciihexdigit", "ahex", "alphabetic", "alpha", "bidicontrol", "bidic", "cased", "caseignorable",
   "ci", "changeswhencasefolded", "cwcf", "changeswhencasemapped", "cwcm", "changeswhenlowercased",
   "cwl", "changeswhentitlecased", "cwt", "changeswhenuppercased", "cwu", "dash",
   "defaultignorablecodepoint", "di", "deprecated", "dep", "diacritic", "dia", "emoji",
   "emojimodifier", "emod", "emojimodifierbase", "ebase", "emojicomponent", "ecomp",
   "emojipresentation", "epres", "extendedpictographic", "extpict", "extender", "ext",
   "graphemebase", "grbase", "graphemeextend", "grext", "hexdigit", "hex", "hyphen", "idcontinue",
   "idc", "idstart", "ids", "ideographic", "ideo", "idsbinaryoperator", "idsb",
   "idstrinaryoperator", "idst", "joincontrol", "joinc", "logicalorderexception", "loe",
   "lowercase", "lower", "math", "noncharactercodepoint", "nchar", "patternsyntax", "patsyn",
   "patternwhitespace", "patws", "prependedconcatenationmark", "pcm", "quotationmark", "qmark",
   "radical", "regionalindicator", "ri", "sentenceterminal", "sterm", "softdotted", "sd",
   "terminalpunctuation", "term", "unifiedideograph", "uideo", "uppercase", "upper",
   "variationselector", "vs", "whitespace", "wspace", "space", "xidcontinue", "xidc", "xidstart",
   "xids"]

def canonicalName (name : List Char) : String :=
  let kept := (name.filter fun c => c ≠ ' ' ∧ c ≠ '-' ∧ c ≠ '_').map Char.toLower
  match kept with
  | 'i' :: 's' :: others => if others = ['c'] then "isc" else String.ofList others
  | _ => String.ofList kept

/-- A name on its own: a category, a script or a binary property. -/
def isPropertyName (name : List Char) : Bool :=
  let name := canonicalName name
  categoryNames.contains name || scriptNames.contains name || scriptCodes.contains name
    || binaryNames.contains name

def isPropertyValue (property value : List Char) : Bool :=
  let property := canonicalName property
  let value := canonicalName value
  if property = "gc" ∨ property = "generalcategory" then categoryNames.contains value
  else if property = "sc" ∨ property = "script" ∨ property = "scx" ∨ property = "scriptextensions" then
    scriptNames.contains value || scriptCodes.contains value
  else false

end ApiDef.Pattern
