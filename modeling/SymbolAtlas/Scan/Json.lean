import SymbolAtlas.Graph.Json
import SymbolAtlas.Scan.Basic

/-!
# Scans as JSON

Reports, and a view of an atlas in which everything is sorted, so that it does not show in which
order the files were visited.
-/

namespace SymbolAtlas

/-- The counts, by name. -/
def ScanReport.toJson (r : ScanReport) : Json :=
  .record [
    ("files_parsed", .nat r.filesParsed),
    ("files_skipped", .nat r.filesSkipped),
    ("chunked_files", .nat r.chunkedFiles),
    ("symbols", .nat r.symbols),
    ("dependencies", .nat r.dependencies),
    ("errors", .nat r.errors),
    ("warnings", .nat r.warnings),
    ("unresolved_dependencies", .nat r.unresolved)]

/-- The word for a kind of vertex. -/
def VertexKind.word : VertexKind → String
  | .repository => "repository"
  | .file => "file"
  | .symbol kind => kind.word

/-- The word for a kind of edge. -/
def EdgeKind.word : EdgeKind → String
  | .contains => "contains"
  | .depends kind => kind.word

/-- What things are sorted by: words first, then a line. -/
structure SortKey where
  words : List String
  line : Nat := 0

/-- The first key comes before the second, or is equal to it. -/
def SortKey.le (a b : SortKey) : Bool :=
  match compareWords a.words b.words with
  | .lt => true
  | .gt => false
  | .eq => a.line ≤ b.line
where
  /-- Compares lists of words, word by word. -/
  compareWords : List String → List String → Ordering
    | [], [] => .eq
    | [], _ :: _ => .lt
    | _ :: _, [] => .gt
    | a :: as, b :: bs => (compare a b).then (compareWords as bs)

/-- The items in the order of their keys. -/
def sortedBy {α : Type} (key : α → SortKey) (items : List α) : List α :=
  items.mergeSort fun a b => (key a).le (key b)

namespace Atlas

/-- All edges with the vertices at their ends. -/
def joints (g : Atlas) : List (Vertex × Vertex × Edge) :=
  g.net.arcs.items.filterMap fun (_, a) => do
    some (← g.net.vertex? a.source, ← g.net.vertex? a.target, a.edge)

/-- The vertices, edges, entities and counts of an atlas, sorted. -/
def viewJson (g : Atlas) : Json :=
  let vertices := sortedBy
    (fun v => ⟨[v.name, v.path.text, v.kind.word], v.startLine⟩)
    (g.net.vertices.items.map Prod.snd)
  let joints := sortedBy
    (fun (v, w, e) => ⟨[v.name, v.path.text, w.name, w.path.text, e.kind.word], e.line⟩) g.joints
  let entities := sortedBy
    (fun (path, e) => ⟨[path.text, e.framework, e.symbol, e.kind], e.line⟩) g.entities
  let ref (v : Vertex) : Json := .list [.string v.name, .string v.path.text]
  .record [
    ("nodes", .array Vertex.toJson vertices),
    ("edges", .array (fun (v, w, e) =>
      .record [("from", ref v), ("to", ref w), ("edge", e.toJson)]) joints),
    ("entities", .array Entity.placedJson entities),
    ("stats", g.census.toJson)]

end Atlas

/-- The files found, each with its root, sorted. -/
def Scan.sourcesJson (found : List Found) : Json :=
  .array (fun f => .list [.string f.root.text, .string f.path.text])
    (sortedBy (fun f => ⟨[f.root.text, f.path.text], 0⟩) found)

end SymbolAtlas
