import Toolpath.Path.Document

/-!
# The document of the last text

A document is kept with the text it was made from, so that the same text need not be interpreted
again. A cache that has gone stale keeps its document and forgets the text.
-/

namespace Toolpath

/-- A document with the text that it stands for, unless it is stale. -/
structure DocumentCache where
  text : Option String := none
  document : Document := {}
deriving DecidableEq

namespace DocumentCache

/-- The text is not the one that the document stands for. -/
def needs (cache : DocumentCache) (text : String) : Bool := cache.text ≠ some text

def update (_ : DocumentCache) (text : String) (document : Document) : DocumentCache :=
  ⟨some text, document⟩

/-- Forgets the text, so that any text is needed again. -/
def markStale (cache : DocumentCache) : DocumentCache := { cache with text := none }

end DocumentCache

end Toolpath
