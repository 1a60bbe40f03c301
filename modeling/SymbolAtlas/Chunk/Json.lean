import SymbolAtlas.Chunk.Basic
import SymbolAtlas.Scope.Json

/-!
# Chunks as JSON
-/

namespace SymbolAtlas

def Wrapped.toJson (w : Wrapped) : Json :=
  .record [
    ("text", .string w.text.toText),
    ("synthetic_prefix", .nat w.preludeSize),
    ("line_offset", .nat w.lineOffset)]

/-- The members of a chunk's record. -/
def Chunk.members (c : Chunk) : List (String × Json) := [
  ("content", .string c.content.toText),
  ("start_line", .nat c.startLine),
  ("end_line", .nat c.endLine),
  ("core_start_line", .nat c.coreStartLine),
  ("index", .nat c.index),
  ("is_final", .bool c.isFinal),
  ("context", c.context.toJson),
  ("closing_braces", .nat c.closingBraces),
  ("line_offset", .nat c.lineOffset),
  ("line_count", .nat c.lineCount),
  ("parse_text", c.wrapped.toJson)]

def Chunk.toJson (c : Chunk) : Json := .record c.members

end SymbolAtlas
