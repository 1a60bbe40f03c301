import SymbolAtlas.Scope.Basic
import SymbolAtlas.Text.Utf8

/-!
# Chunks

A `Chunk` is a run of whole lines of a file that is parsed on its own. It may repeat some lines of
the chunk before it; its core begins where they end. `Chunk.wrapped` is the text handed to the
grammar: the content behind a prelude that opens the scopes around it, and in front of a line of
braces that closes whatever is open at its end.
-/

namespace SymbolAtlas

/-- A run of lines of a file. Lines are one-based and inclusive. -/
structure Chunk where
  content : Bytes
  startLine : Nat
  endLine : Nat
  /-- The first line that the chunk before does not hold. -/
  coreStartLine : Nat
  index : Nat
  isFinal : Bool
  /-- What is open where the chunk starts. -/
  context : Context
  /-- The braces open where the chunk ends, with those its prelude opens. -/
  closingBraces : Nat
  deriving DecidableEq, Repr

/-- The text of a chunk as it is parsed. -/
structure Wrapped where
  text : Bytes
  /-- Bytes before the chunk's own content. -/
  preludeSize : Nat
  /-- What to add to a line of the text to get the line of the file. -/
  lineOffset : Nat
  deriving DecidableEq, Repr

namespace Chunk

/-- What to add to a line of the content to get the line of the file. -/
def lineOffset (c : Chunk) : Nat := c.startLine - 1

def lineCount (c : Chunk) : Nat := c.endLine - c.startLine + 1

/-- The chunk before holds the line too. -/
def inOverlap (c : Chunk) (line : Nat) : Bool := line < c.coreStartLine

/-- The line of braces that closes what is open at the end of `text`. -/
def closing (text : Bytes) (braces : Nat) : Bytes :=
  if braces = 0 then []
  else
    (if text.getLast? == some Byte.newline then [] else [Byte.newline])
      ++ List.replicate braces Byte.closeBrace ++ [Byte.newline]

/-- The content with the nesting it has in the file. -/
def wrapped (c : Chunk) : Wrapped :=
  let opening := Bytes.ofString c.context.prelude
  let text := opening ++ c.content
  { text := text ++ closing text c.closingBraces
    preludeSize := opening.length
    lineOffset := c.lineOffset - if opening.isEmpty then 0 else 1 }

end Chunk

end SymbolAtlas
