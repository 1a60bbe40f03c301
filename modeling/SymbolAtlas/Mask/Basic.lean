import SymbolAtlas.Mask.Scanner

/-!
# The code mask

A `Mask` is a text in which every byte that is not live code has been blanked. It is aligned with
the text byte by byte, so offsets and lines carry over unchanged, and braces found in it are braces
of the program. `matchingBrace` and `braceDepth` count them.
-/

namespace SymbolAtlas

/-- A text with everything but its live code blanked. -/
structure Mask where
  /-- The text, with newlines kept and other bytes outside live code replaced by spaces. -/
  shown : Bytes
  /-- For every byte, whether it is live code. -/
  code : List Bool
  /-- The offset at which each line begins. -/
  lineStarts : List Nat
  deriving DecidableEq, Repr

namespace Mask

/-- The line starts without the last one, newest first, if that lies at the end of a text of `size`
bytes: a newline at the end begins no line. -/
def dropEnd (size : Nat) (starts : List Nat) : List Nat :=
  if starts.head? == some size && 0 < size then starts.tail else starts

/-- The mask of a text: what the scanner writes down, oldest first. -/
def ofSource (s : Bytes) : Mask :=
  let t := Scanner.scan s
  { shown := t.shown.reverse
    code := t.code.reverse
    lineStarts := (dropEnd s.length t.lineStarts).reverse }

/-- The length of the text in bytes. -/
def size (m : Mask) : Nat :=
  m.code.length

/-- The byte at `offset` is live code. -/
def isCode (m : Mask) (offset : Nat) : Bool :=
  m.code[offset]?.getD false

/-- The one-based line of a byte offset. -/
def lineOf (m : Mask) (offset : Nat) : Nat :=
  max 1 (m.lineStarts.countP (· ≤ offset))

/-- The nesting depth after byte `b`. A closing brace without a partner counts for nothing. -/
def nest (depth : Nat) (b : Byte) : Nat :=
  if b == Byte.openBrace then depth + 1
  else if b == Byte.closeBrace then depth - 1
  else depth

/-- The offset at which the last of `depth` open braces is closed in `s`, which begins at
`offset`. -/
def closingFrom (depth offset : Nat) : Bytes → Option Nat
  | [] => none
  | b :: rest =>
    if b == Byte.closeBrace && depth ≤ 1 then some offset
    else closingFrom (nest depth b) (offset + 1) rest

/-- The offset of the brace that closes the one at offset `start`. -/
def matchingBrace (m : Mask) (start : Nat) : Option Nat :=
  match m.shown.drop start with
  | Byte.openBrace :: rest => closingFrom 1 (start + 1) rest
  | _ => none

/-- The number of braces open just before offset `stop`. -/
def braceDepth (m : Mask) (stop : Nat) : Nat :=
  (m.shown.take stop).foldl nest 0

/-- The longest runs of live code, each as its first offset and the offset past its last. -/
def codeRanges (m : Mask) : List (Nat × Nat) :=
  (m.code.zipIdx.foldl extend []).reverse
where
  /-- Adds one verdict to the runs found so far, newest first. -/
  extend (runs : List (Nat × Nat)) : Bool × Nat → List (Nat × Nat)
    | (false, _) => runs
    | (true, i) =>
      match runs with
      | (start, stop) :: older => if stop == i then (start, i + 1) :: older else (i, i + 1) :: runs
      | [] => [(i, i + 1)]

@[simp] theorem length_code_ofSource (s : Bytes) : (ofSource s).code.length = s.length := by
  simp [ofSource, Scanner.scan, Scanner.length_code_scanFrom]

@[simp] theorem length_shown_ofSource (s : Bytes) : (ofSource s).shown.length = s.length := by
  simp [ofSource, Scanner.scan, Scanner.length_shown_scanFrom]

end Mask

end SymbolAtlas
