import SymbolAtlas.Chunk.Basic
import SymbolAtlas.Mask.Basic
import SymbolAtlas.Settings.Basic

/-!
# Splitting a file into chunks

Turns cut offsets into overlapping runs of whole lines. First the lines are divided up: each chunk
reaches to the next cut, repeats up to a given number of lines of its predecessor, and gives up
lines from its end until it fits. Then each run of lines is made into a `Chunk` with its context.

Line numbers are zero-based in the division, and a `Division` ends before its `stop`.
-/

namespace SymbolAtlas

/-- The lines of a chunk: it starts with `start`, its core with `core`, and it ends before
`stop`. -/
structure Division where
  start : Nat
  core : Nat
  stop : Nat
  deriving DecidableEq, Repr

namespace Division

/-- The offsets at which lines begin, followed by the length of the text. -/
def lineEdges (s : Bytes) : List Nat :=
  let edges := 0 :: Bytes.afterNewlines 0 s
  if edges.getLast? == some s.length then edges else edges ++ [s.length]

/-- The lines that cuts fall on, ascending, without the first. -/
def cutLines (edges : List Nat) (boundaries : List Nat) : List Nat :=
  let total := edges.length - 1
  let lines := (boundaries.map fun b => edges.countP (· ≤ b) - 1).filter fun l => 0 < l && l < total
  (lines.mergeSort (· ≤ ·)).eraseReps

/-- The bytes between the beginnings of two lines. -/
def bytesBetween (edges : Array Nat) (first last : Nat) : Nat :=
  edges.getD last 0 - edges.getD first 0

/-- Moves the start of the overlap forward until it takes at most half of `limit`. -/
def shrinkOverlap (edges : Array Nat) (limit core start : Nat) : Nat :=
  if start < core ∧ limit / 2 < bytesBetween edges start core then
    shrinkOverlap edges limit core (start + 1)
  else start
termination_by core - start

/-- Gives up lines until the chunk fits into `limit`: about a tenth of them from the end at a time,
then the overlap. A single line goes through whatever its size. -/
def fit (edges : Array Nat) (limit : Nat) (d : Division) : Division :=
  if limit < bytesBetween edges d.start d.stop then
    if 1 < d.stop - d.core then
      let trim := min (max 1 ((d.stop - d.start) / 10)) (d.stop - d.core - 1)
      fit edges limit { d with stop := d.stop - trim }
    else if d.start < d.core then fit edges limit { d with start := d.core }
    else d
  else d
termination_by (d.stop - d.core) + (d.core - d.start)
decreasing_by
  · show d.stop - min (max 1 ((d.stop - d.start) / 10)) (d.stop - d.core - 1) - d.core
      + (d.core - d.start) < d.stop - d.core + (d.core - d.start)
    omega
  · show d.stop - d.core + (d.core - d.core) < d.stop - d.core + (d.core - d.start)
    omega

/-- Where a chunk with core `core` starts, when the one before starts with `last`. -/
def overlapStart (edges : Array Nat) (limit overlap : Nat) (last : Option Nat) (core : Nat) : Nat :=
  match last with
  | none => core
  | some last => shrinkOverlap edges limit core (min (max (core - overlap) (last + 1)) core)

/-- The chunk whose core begins with line `core`, when the next cut is the first of `cuts` past
it. -/
def next (edges : Array Nat) (limit overlap total : Nat) (cuts : List Nat) (last : Option Nat)
    (core : Nat) : Division :=
  let stop := ((cuts.find? (core < ·)).getD total)
  fit edges limit { start := overlapStart edges limit overlap last core, core, stop }

/-- Divides the lines from `core` on. A chunk always takes at least one line past its core start;
`fuel` bounds their number. -/
def divide (edges : Array Nat) (limit overlap total : Nat) (cuts : List Nat) :
    Nat → Option Nat → Nat → List Division
  | 0, _, _ => []
  | fuel + 1, last, core =>
    if core < total then
      let d := next edges limit overlap total cuts last core
      d :: divide edges limit overlap total cuts fuel (some d.start) d.stop
    else []

end Division

namespace Chunk

/-- The chunk of a run of lines. -/
def ofDivision (source : Bytes) (edges : Array Nat) (outline : Outline) (mask : Mask) (final : Nat)
    (d : Division) (index : Nat) : Chunk :=
  let first := edges.getD d.start 0
  let last := edges.getD d.stop 0
  let depth := mask.braceDepth first
  let around := outline.contextAt first
  let context := { around with openBlocks := depth - around.scopeBraces }
  { content := source.slice first last
    startLine := d.start + 1
    endLine := d.stop
    coreStartLine := d.core + 1
    index
    isFinal := index + 1 == final
    context
    closingBraces := context.openedBraces + mask.braceDepth last - depth }

/-- The chunks of a file, cut at `boundaries`. -/
def split (settings : Settings.Chunking) (source : Bytes) (boundaries : List Nat)
    (outline : Outline) (mask : Mask) : List Chunk :=
  let edges := Division.lineEdges source
  let total := edges.length - 1
  let cuts := Division.cutLines edges boundaries
  let table := edges.toArray
  let divisions :=
    Division.divide table settings.limit settings.overlapLines total cuts total none 0
  divisions.zipIdx.map fun (d, i) => ofDivision source table outline mask divisions.length d i

end Chunk

end SymbolAtlas
