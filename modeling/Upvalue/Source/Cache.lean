import Upvalue.Source.File
import Upvalue.Span

/-!
This module contains the source texts of one compilation. The file of a span is a position among
them.
-/

namespace Upvalue

/-- Source texts, in the order in which they were added. -/
structure SourceCache where
  files : Array SourceFile
deriving DecidableEq, Repr, Inhabited

namespace SourceCache

def empty : SourceCache := ⟨#[]⟩

def ofList (files : List SourceFile) : SourceCache := ⟨files.toArray⟩

def size (cache : SourceCache) : Nat :=
  cache.files.size

def file? (cache : SourceCache) (file : UInt32) : Option SourceFile :=
  cache.files[file.toNat]?

/-- The place where a span starts, if it lies in a source text that is known. -/
def location? (cache : SourceCache) (span : Span) : Option Location :=
  if span.isDummy then none
  else
    (cache.file? span.file).map fun file =>
      let (line, column) := file.lineColumn span.start.toNat
      ⟨file.path, line, column⟩

@[simp]
theorem location?_dummy (cache : SourceCache) : cache.location? Span.dummy = none := rfl

end SourceCache

end Upvalue
