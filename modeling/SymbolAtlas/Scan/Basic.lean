import SymbolAtlas.Files.Walk
import SymbolAtlas.Graph.Link

/-!
# Scanning

Builds the atlas of all source files below some roots, and brings a single file of it up to date.
-/

namespace SymbolAtlas

/-- What a scan went through. -/
structure ScanReport where
  filesParsed : Nat := 0
  /-- Files that could not be read or are too large. -/
  filesSkipped : Nat := 0
  /-- Files that were parsed in more than one chunk. -/
  chunkedFiles : Nat := 0
  symbols : Nat := 0
  dependencies : Nat := 0
  errors : Nat := 0
  warnings : Nat := 0
  unresolved : Nat := 0
  deriving DecidableEq, Repr

namespace ScanReport

/-- The report with the findings of one more file. -/
def tally (r : ScanReport) (f : Findings) : ScanReport :=
  { r with
    filesParsed := r.filesParsed + 1
    chunkedFiles := r.chunkedFiles + (if 1 < f.tally.chunksProcessed then 1 else 0)
    symbols := r.symbols + f.symbols.length
    dependencies := r.dependencies + f.dependencies.length
    errors := r.errors + f.issues.countP fun i => i.severity = .error
    warnings := r.warnings + f.issues.countP fun i => i.severity = .warning }

/-- The report with one more file passed over. -/
def skip (r : ScanReport) : ScanReport := { r with filesSkipped := r.filesSkipped + 1 }

end ScanReport

namespace Scan

/-- The findings of the file under a path. -/
def parseFile (settings : Settings) (disk : Disk) (path : Path) : Except Failure Findings :=
  match disk.textFile path with
  | .error fault => .error (.unreadable fault)
  | .ok f => Findings.ofFile settings path f.content f.forest

/-- The source files below the roots. -/
def sources (disk : Disk) (roots : List Path) : List Found :=
  roots.flatMap (Walk.sources disk)

/-- Adds a file to the atlas and to the report. -/
def addFile (settings : Settings) (disk : Disk) (frameworks : List Framework) :
    Atlas × ScanReport → Found → Atlas × ScanReport
  | (g, report), found =>
    match parseFile settings disk found.path with
    | .error _ => (g, report.skip)
    | .ok f =>
      let (repository, g) := g.addRepository found.root
      let (_, g) := g.ingest (some repository) found.path f (f.allEntities frameworks)
      (g, report.tally f)

/-- The linked atlas of all source files below the roots. -/
def build (settings : Settings) (disk : Disk) (frameworks : List Framework) (roots : List Path) :
    Atlas × ScanReport :=
  let (g, report) := (sources disk roots).foldl (addFile settings disk frameworks) ({}, {})
  let g := g.link
  (g, { report with unresolved := g.unresolved })

/-- Parses a file anew and links the atlas again. -/
def rebuildFile (settings : Settings) (disk : Disk) (frameworks : List Framework) (g : Atlas)
    (path : Path) : Except Failure Atlas := do
  let f ← parseFile settings disk path
  let (_, g) := g.ingest (g.repositoryOf? path) path f (f.allEntities frameworks)
  return g.link

end Scan

end SymbolAtlas
