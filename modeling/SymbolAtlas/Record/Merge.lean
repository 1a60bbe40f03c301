import SymbolAtlas.Graph.Index
import SymbolAtlas.Record.Basic

/-!
# Merging findings

Chunks that overlap see the same declarations and calls more than once, and one type can be spread
over several of them. Merging keeps one record per key, in the order in which keys first occur:

* symbols by qualified name and kind, joined by `Symbol.join`;
* dependencies by source, target, kind and line, the most confident one winning;
* imports by source, alias and kind; exports by qualified name; issues by place and message.

Findings are merged one part after the other. Records are put on a `Shelf`, which knows by key where
each of them stands, and one counter goes along for the symbols and dependencies that were not new.
-/

namespace SymbolAtlas

/-- Records in a row that grows at its end, and where in the row the record of each key stands. -/
structure Shelf (κ α : Type) where
  records : List α := []
  index : Index κ Nat := {}
  deriving Repr

/-- Puts a record on the shelf: combined with the one of the same key, or else at the end. The count
goes up if its key was there. -/
def Shelf.put {κ α : Type} [DecidableEq κ] (key : α → κ) (combine : α → α → α)
    (state : Shelf κ α × Nat) (x : α) : Shelf κ α × Nat :=
  let (shelf, found) := state
  match shelf.index.find? (key x) with
  | some i => ({ shelf with records := shelf.records.modify i (combine · x) }, found + 1)
  | none =>
    ({ records := shelf.records ++ [x]
       index := shelf.index.insert (key x) shelf.records.length }, found)

namespace Symbol

/-- Symbols with the same key are records of one declaration. -/
def key (s : Symbol) : String × SymbolKind := (s.qualifiedName, s.kind)

/-- The line ranges overlap or follow each other without a gap. -/
def touches (a b : Symbol) : Bool := b.startLine ≤ a.endLine + 1 && a.startLine ≤ b.endLine + 1

/-- The first record tells less than the second: it lacks a signature, or else an export, or else
lines, that the second has. -/
def isPoorer (a b : Symbol) : Bool :=
  if a.hasSignature != b.hasSignature then b.hasSignature
  else if a.isExported != b.isExported then b.isExported
  else a.lineSpan < b.lineSpan

/-- One declaration seen in two pieces. -/
def union (a b : Symbol) : Symbol :=
  { a with
    startLine := min a.startLine b.startLine
    endLine := max a.endLine b.endLine
    signature := if !a.hasSignature && b.hasSignature then b.signature else a.signature
    isExported := a.isExported || b.isExported
    visibility := a.visibility.wider b.visibility }

/-- Two records of one key made one. Pieces of a container or of adjoining lines are united; of two
separate declarations the one that tells more is kept. -/
def join (a b : Symbol) : Symbol :=
  if a.kind.isContainer || a.touches b then a.union b
  else if a.isPoorer b then b else a

end Symbol

namespace Dependency

def key (d : Dependency) : String × String × DependencyKind × Nat :=
  (d.fromSymbol, d.toSymbol, d.kind, d.line)

/-- The more confident of two records, the first of equal ones. -/
def surer (a b : Dependency) : Dependency := if a.confidence.isBelow b.confidence then b else a

end Dependency

namespace Import

def key (i : Import) : String × Option String × ImportKind := (i.source, i.aliasName, i.kind)

/-- One import seen twice. -/
def join (a b : Import) : Import :=
  { a with isGlobal := a.isGlobal || b.isGlobal, line := min a.line b.line }

end Import

namespace Export

/-- One export seen twice. -/
def join (a b : Export) : Export := { a with line := min a.line b.line }

end Export

namespace Issue

def key (i : Issue) : Nat × Nat × String := (i.line, i.column, i.message)

end Issue

namespace Findings

/-- The number of lines within which a call and its target count as close. -/
def bucketLines : Nat := 500

/-- The bucket of a line. -/
def bucket (line : Nat) : Nat := (line - 1) / bucketLines

/-- The first line of the first symbol of each name. -/
def firstLines (symbols : List Symbol) : Index String Nat :=
  symbols.foldl (fun lines s =>
    if (lines.find? s.qualifiedName).isSome then lines
    else lines.insert s.qualifiedName s.startLine) {}

/-- The target is declared in this file, far from the place of the dependency. -/
def isDistant (lines : Index String Nat) (d : Dependency) : Bool :=
  (lines.find? d.toSymbol).any fun line => bucket line != bucket d.line

/-- The state of merging: what has been kept of each kind of record, and counts. -/
structure Merging where
  symbols : Shelf (String × SymbolKind) Symbol := {}
  dependencies : Shelf (String × String × DependencyKind × Nat) Dependency := {}
  imports : Shelf (String × Option String × ImportKind) Import := {}
  exports : Shelf String Export := {}
  issues : List Issue := []
  /-- The keys of the issues. -/
  issueKeys : Index (Nat × Nat × String) Unit := {}
  chunksProcessed : Nat := 0
  /-- Symbols and dependencies that were not new, here or in a part. -/
  removed : Nat := 0
  deriving Repr

namespace Merging

/-- Keeps an issue if its key is new. -/
def addIssue (state : List Issue × Index (Nat × Nat × String) Unit) (i : Issue) :
    List Issue × Index (Nat × Nat × String) Unit :=
  let (issues, known) := state
  (if (known.find? i.key).isNone then issues ++ [i] else issues, known.insert i.key ())

/-- Adds one part. Imports and exports are not counted. -/
def addPart (m : Merging) (part : Findings) : Merging :=
  let removed := m.removed + part.tally.duplicatesRemoved
  let (symbols, removed) := part.symbols.foldl (Shelf.put Symbol.key Symbol.join)
    (m.symbols, removed)
  let (dependencies, removed) := part.dependencies.foldl (Shelf.put Dependency.key Dependency.surer)
    (m.dependencies, removed)
  let (imports, _) := part.imports.foldl (Shelf.put Import.key Import.join) (m.imports, 0)
  let (exports, _) := part.exports.foldl (Shelf.put Export.qualifiedName Export.join) (m.exports, 0)
  let (issues, issueKeys) := part.issues.foldl addIssue (m.issues, m.issueKeys)
  { symbols, dependencies, imports, exports, issues, issueKeys, removed
    chunksProcessed := m.chunksProcessed + part.tally.chunksProcessed }

end Merging

/-- Several findings made one. -/
def merge (parts : List Findings) : Findings :=
  let m := parts.foldl Merging.addPart {}
  { symbols := m.symbols.records
    dependencies := m.dependencies.records
    imports := m.imports.records
    exports := m.exports.records
    issues := m.issues
    tally :=
      { chunksProcessed := m.chunksProcessed
        duplicatesRemoved := m.removed
        crossChunkReferences :=
          m.dependencies.records.countP (isDistant (firstLines m.symbols.records)) } }

end Findings

end SymbolAtlas
