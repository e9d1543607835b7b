import ApiDef.Cache.HitRate
import ApiDef.Document
set_option autoImplicit false

/-!
# Reading through a cache

A cache of documents and read errors. Whoever asks again for the same text gets the same outcome
without a second reading; so a consumer that changes its options has to invalidate its entries.
-/

namespace ApiDef

abbrev Reading : Type := Except ReadError Document

namespace Cache

/-- Reads a text for a consumer, unless its outcome is kept. -/
def read (patternFault? : String → Option String) (cache : Cache Reading) (moment : Moment Reading)
    (consumer : String) (options : Options) (text : String) : Reading × Cache Reading :=
  cache.fetch moment ⟨consumer, text⟩ (Document.readWith patternFault? options)

end Cache

end ApiDef
