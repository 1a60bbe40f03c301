/-!
# Text as bytes

Source text is handled as the list of its UTF-8 bytes, because every position this library reports
or receives is a byte offset. This module names the bytes the scanner looks at and gives the few
operations on byte lists that the rest is built from:

* `slice` — the bytes between two offsets;
* `rowAt`, `columnAt` — the zero-based row and column of an offset;
* `lineStarts` — the offsets at which lines begin.
-/

namespace SymbolAtlas

/-- One byte of UTF-8 text. -/
abbrev Byte := UInt8

/-- UTF-8 text as the list of its bytes. -/
abbrev Bytes := List UInt8

namespace Byte

@[match_pattern] abbrev tab : Byte := 0x09
@[match_pattern] abbrev newline : Byte := 0x0A
@[match_pattern] abbrev carriageReturn : Byte := 0x0D
@[match_pattern] abbrev space : Byte := 0x20
@[match_pattern] abbrev quote : Byte := 0x22
@[match_pattern] abbrev hash : Byte := 0x23
@[match_pattern] abbrev dollar : Byte := 0x24
@[match_pattern] abbrev apostrophe : Byte := 0x27
@[match_pattern] abbrev openParen : Byte := 0x28
@[match_pattern] abbrev closeParen : Byte := 0x29
@[match_pattern] abbrev star : Byte := 0x2A
@[match_pattern] abbrev slash : Byte := 0x2F
@[match_pattern] abbrev semicolon : Byte := 0x3B
@[match_pattern] abbrev atSign : Byte := 0x40
@[match_pattern] abbrev openBracket : Byte := 0x5B
@[match_pattern] abbrev backslash : Byte := 0x5C
@[match_pattern] abbrev closeBracket : Byte := 0x5D
@[match_pattern] abbrev underscore : Byte := 0x5F
@[match_pattern] abbrev openBrace : Byte := 0x7B
@[match_pattern] abbrev closeBrace : Byte := 0x7D

/-- Tab, newline, form feed, carriage return and space. -/
def isBlank (b : Byte) : Bool :=
  b == 0x09 || b == 0x0A || b == 0x0C || b == 0x0D || b == 0x20

/-- ASCII letters and digits. -/
def isAlphanumeric (b : Byte) : Bool :=
  (0x30 ≤ b && b ≤ 0x39) || (0x41 ≤ b && b ≤ 0x5A) || (0x61 ≤ b && b ≤ 0x7A)

/-- A byte that can stand in an ASCII identifier. -/
def isWord (b : Byte) : Bool :=
  isAlphanumeric b || b == underscore

end Byte

namespace Bytes

/-- The bytes of `s` from offset `start` up to, not including, offset `stop`. -/
def slice (s : Bytes) (start stop : Nat) : Bytes :=
  (s.drop start).take (stop - start)

/-- The number of newlines before `offset`. -/
def rowAt (s : Bytes) (offset : Nat) : Nat :=
  (s.take offset).count Byte.newline

/-- The number of bytes between the last newline before `offset` and `offset`. -/
def columnAt (s : Bytes) (offset : Nat) : Nat :=
  ((s.take offset).reverse.takeWhile (· != Byte.newline)).length

/-- The offsets just past each newline, for text that begins at offset `base`. -/
def afterNewlines (base : Nat) (s : Bytes) : List Nat :=
  (s.zipIdx (base + 1)).filterMap fun (b, next) => if b == Byte.newline then some next else none

/-- The offset at which each line begins. A final newline begins no line of its own. -/
def lineStarts (s : Bytes) : List Nat :=
  0 :: (afterNewlines 0 s).filter (· < s.length)

/-- The length of the longest run of `b` that `s` begins with. -/
def runLength (b : Byte) (s : Bytes) : Nat :=
  (s.takeWhile (· == b)).length

end Bytes

end SymbolAtlas
