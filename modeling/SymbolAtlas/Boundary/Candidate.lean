import SymbolAtlas.Mask.Basic

/-!
# Ranked line ends

Every line end of a mask that is live code, outside parentheses and brackets and not nested too
deeply, is a possible cut. A `Candidate` ranks it by how cleanly the line closes a block or a
statement.
-/

namespace SymbolAtlas

/-- A ranked place to cut, at the start of a line. -/
structure Candidate where
  offset : Nat
  score : Int
  deriving DecidableEq, Repr

namespace Candidate

/-- What is known of the text up to some byte. -/
structure Reading where
  braces : Nat := 0
  parens : Nat := 0
  brackets : Nat := 0
  /-- The last visible byte of the line. -/
  last : Option Byte := none
  /-- Visible bytes on the line. -/
  visible : Nat := 0
  /-- Columns of indentation, a tab counting for four. -/
  indent : Nat := 0
  /-- Nothing visible has been seen on the line. -/
  atIndent : Bool := true
  deriving DecidableEq, Repr

/-- The worth of a line by its last visible byte, at a nesting depth. -/
def base? (last : Option Byte) (depth : Nat) : Option Int :=
  match last with
  | none => some 15
  | some b =>
    if b == Byte.closeBrace then
      some (match depth with
        | 0 => 100
        | 1 => 60
        | _ => 40)
    else if b == Byte.semicolon then some (if depth = 0 then 80 else 30 - 5 * depth)
    else none

/-- The score of the line end that `r` stands at. -/
def score? (r : Reading) : Option Int :=
  (base? r.last r.braces).map fun base =>
    base - 3 * r.braces + (if r.visible = 1 then 5 else 0) +
      (if r.indent ≤ 4 then 10 else if r.indent ≤ 8 then 5 else 0)

/-- Reads one byte that is not a newline. -/
def Reading.read (r : Reading) (b : Byte) : Reading :=
  if b == Byte.space || b == Byte.tab || b == Byte.carriageReturn then
    if r.atIndent then { r with indent := r.indent + if b == Byte.tab then 4 else 1 } else r
  else
    { r with
      atIndent := false
      visible := r.visible + 1
      last := some b
      braces := Mask.nest r.braces b
      parens :=
        if b == Byte.openParen then r.parens + 1
        else if b == Byte.closeParen then r.parens - 1 else r.parens
      brackets :=
        if b == Byte.openBracket then r.brackets + 1
        else if b == Byte.closeBracket then r.brackets - 1 else r.brackets }

/-- The reading at the start of the next line. -/
def Reading.nextLine (r : Reading) : Reading :=
  { braces := r.braces, parens := r.parens, brackets := r.brackets }

/-- A line may end here. -/
def Reading.mayEnd (r : Reading) (maxDepth : Nat) : Bool :=
  r.parens == 0 && r.brackets == 0 && r.braces ≤ maxDepth

/-- Reads one byte of the mask, adding the candidate it ends a line with, if any. `next` is the
offset past the byte. -/
def step (maxDepth : Nat) :
    Reading × List Candidate → (Byte × Bool) × Nat → Reading × List Candidate
  | (r, found), ((b, code), next) =>
    if b == Byte.newline then
      let here :=
        if code && r.mayEnd maxDepth then (score? r).map fun score => { offset := next, score }
        else none
      (r.nextLine, here.toList ++ found)
    else (r.read b, found)

/-- The candidates of a mask, in order. -/
def ofMask (m : Mask) (maxDepth : Nat) : List Candidate :=
  (((m.shown.zip m.code).zipIdx 1).foldl (step maxDepth) ({}, [])).2.reverse

end Candidate

end SymbolAtlas
