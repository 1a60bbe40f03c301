import SymbolAtlas.Boundary.Candidate
import SymbolAtlas.Settings.Basic
import SymbolAtlas.Tree.Node

/-!
# Where to cut a file

A `Plan` lists the offsets at which a large file is cut. Whole top-level declarations are packed
into pieces of at most the chunk size; a declaration too large for that, and any text after the
last one, is cut at the best-ranked line ends. A file that consists mostly of such oversized
declarations is not cut at all.

* `Cutter.cut` finds the best single cut in a window, `Cutter.cuts` covers a range with them;
* `Cutter.plan` plans a whole file.
-/

namespace SymbolAtlas

/-- How the cuts of a plan were found. -/
inductive Strategy where
  /-- Between whole declarations only. -/
  | declarations
  /-- Between declarations, with oversized ones cut at ranked line ends. -/
  | mixed
  /-- At ranked line ends only, there being no declarations. -/
  | tokenScan
  deriving DecidableEq, Repr

/-- Where a file is cut. -/
inductive Plan where
  | split (boundaries : List Nat) (strategy : Strategy)
  /-- The file is parsed whole, whatever its size. -/
  | unchunked (reason : String)
  deriving DecidableEq, Repr

namespace Node

mutual

/-- The spans of the outermost type declarations at a node, seen through namespaces. -/
def declarationsAt : Node → List (Nat × Nat)
  | .mk label children =>
    let kind := Kind.ofName label.name
    if !label.named then []
    else if kind.isTopLevel then [(label.start, label.stop)]
    else if kind.isNamespace then
      match declarationsInBody children with
      | some spans => spans
      | none => declarationsAmong children
    else if label.name == "declaration_list" then declarationsAmong children
    else []

/-- The spans of the outermost type declarations among nodes. -/
def declarationsAmong : List Node → List (Nat × Nat)
  | [] => []
  | n :: rest => declarationsAt n ++ declarationsAmong rest

/-- The spans among the children of the first node that is a body. -/
def declarationsInBody : List Node → Option (List (Nat × Nat))
  | [] => none
  | .mk label children :: rest =>
    if label.field == "body" then some (declarationsAmong children) else declarationsInBody rest

end

/-- The spans of the outermost type declarations of a file. -/
def topLevelDeclarations (root : Node) : List (Nat × Nat) := declarationsAmong root.children

end Node

/-- What cuts are looked for in: the settings, a mask and its ranked line ends. -/
structure Cutter where
  settings : Settings.Chunking
  mask : Mask
  candidates : List Candidate

namespace Cutter

/-- The cutter of a mask. -/
def ofMask (settings : Settings.Chunking) (mask : Mask) : Cutter where
  settings
  mask
  candidates := Candidate.ofMask mask settings.maxDepth

/-- The start of the line that holds `offset`. -/
def lineStart (c : Cutter) (offset : Nat) : Nat :=
  ((c.mask.lineStarts.takeWhile (· ≤ offset)).getLast?).getD 0

/-- The start of the line after the one that holds `offset`. -/
def nextLine (c : Cutter) (offset : Nat) : Nat :=
  ((c.mask.lineStarts.dropWhile (· ≤ offset)).head?).getD c.mask.size

/-- The better of two candidates, the later one when they are equal. -/
def better (best : Option Candidate) (c : Candidate) : Option Candidate :=
  match best with
  | some b => if c.score < b.score then some b else some c
  | none => some c

/-- The last offset up to `cut` at which a character begins, but none below `low`. -/
def snap (s : Bytes) (low : Nat) : Nat → Nat
  | 0 => 0
  | cut + 1 => if low < cut + 1 && !s.isBoundary (cut + 1) then snap s low cut else cut + 1

/-- The last line start after `start` and up to `high`; on a single long line, `high` itself, moved
back to where a character begins. -/
def forcedCut (c : Cutter) (start high : Nat) : Nat :=
  match (c.mask.lineStarts.takeWhile (· ≤ high)).getLast? with
  | some line => if start < line then line else snap c.mask.shown (start + 1) high
  | none => snap c.mask.shown (start + 1) high

/-- The last offset at which a piece that begins at `start` may be cut. -/
def highEdge (c : Cutter) (start limit : Nat) : Nat :=
  min (start + c.settings.limit) (limit - 1)

/-- The first offset at which a piece that begins at `start` is preferably cut. -/
def lowEdge (c : Cutter) (start : Nat) : Nat :=
  let floor := (Double.mul (.ofNat c.settings.limit) c.settings.searchFloor).toNat
  max (start + min floor c.settings.limit) (start + 1)

/-- The best cut after `start`, at most a chunk away and before `limit`. -/
def cut (c : Cutter) (start limit : Nat) : Nat :=
  let high := c.highEdge start limit
  let window := (c.candidates.dropWhile (·.offset < c.lowEdge start)).takeWhile (·.offset ≤ high)
  match window.foldl better none with
  | some best => best.offset
  | none => c.forcedCut start high

/-- Cuts that divide the text from `start` to `limit` into pieces of at most a chunk. -/
def cuts (c : Cutter) (start limit : Nat) : List Nat :=
  if c.settings.limit < limit - start then
    let next := c.cut start limit
    if _h : start < next ∧ next < limit then next :: c.cuts next limit else []
  else []
termination_by limit - start

/-- The state of packing declarations into pieces. -/
structure Packing where
  /-- Cuts found so far. -/
  boundaries : List Nat := []
  /-- Where the current piece begins. -/
  pieceStart : Nat := 0
  /-- Where the declaration before ended. -/
  lastStop : Option Nat := none
  /-- Some declaration was cut. -/
  usedScan : Bool := false

/-- Adds cuts found by scanning. -/
def Packing.addCuts (p : Packing) (cuts : List Nat) : Packing :=
  { p with
    boundaries := p.boundaries ++ cuts
    pieceStart := cuts.getLast?.getD p.pieceStart
    usedScan := p.usedScan || !cuts.isEmpty }

/-- Begins a new piece in front of a declaration that no longer fits into the current one. -/
def makeRoom (c : Cutter) (p : Packing) (start stop : Nat) : Packing :=
  match p.lastStop with
  | none => p
  | some lastStop =>
    let next := c.nextLine lastStop
    if c.settings.limit < c.nextLine stop - p.pieceStart && p.pieceStart < next
        && next ≤ c.lineStart start then
      { p with boundaries := p.boundaries ++ [next], pieceStart := next }
    else p

/-- Packs one declaration. -/
def pack (c : Cutter) (p : Packing) : Nat × Nat → Packing
  | (start, stop) =>
    let p := c.makeRoom p start stop
    let p := if c.settings.limit < stop - start then p.addCuts (c.cuts p.pieceStart stop) else p
    { p with lastStop := some stop }

/-- The bytes taken by declarations larger than a chunk. -/
def oversized (c : Cutter) (declarations : List (Nat × Nat)) : Nat :=
  declarations.foldl (fun n (start, stop) =>
    if c.settings.limit < stop - start then n + (stop - start) else n) 0

/-- Packs all declarations, and cuts what follows them. -/
def packAll (c : Cutter) (declarations : List (Nat × Nat)) : Plan :=
  let p := declarations.foldl c.pack {}
  let p := p.addCuts (c.cuts p.pieceStart c.mask.size)
  .split p.boundaries (if p.usedScan then .mixed else .declarations)

/-- The plan for a file with the given syntax tree, if there is one. -/
def plan (c : Cutter) (tree : Option Node) : Plan :=
  let size := c.mask.size
  let declarations := (tree.map Node.topLevelDeclarations).getD []
  if size ≤ c.settings.limit then .split [] .declarations
  else if declarations.isEmpty then .split (c.cuts 0 size) .tokenScan
  else
    let oversized := c.oversized declarations
    if (Double.mul c.settings.oversizedRatio (.ofNat size)).isBelow (.ofNat oversized) then
      .unchunked s!"oversized declarations cover {oversized} of {size} bytes"
    else c.packAll declarations

end Cutter

end SymbolAtlas
