import SymbolAtlas.Graph.Query
import SymbolAtlas.Json.Basic
import SymbolAtlas.Snapshot.Basic

/-!
# The atlas as JSON
-/

namespace SymbolAtlas

/-- A kind as a word; the kind of a symbol is nested. -/
def VertexKind.toJson : VertexKind → Json
  | .repository => .string "repository"
  | .file => .string "file"
  | .symbol kind => .record [("symbol", .record [("kind", .string kind.word)])]

/-- The vertex, by name of its parts. -/
def Vertex.toJson (v : Vertex) : Json :=
  .record [
    ("name", .string v.name),
    ("kind", v.kind.toJson),
    ("file_path", .string v.path.text),
    ("line_start", .nat v.startLine),
    ("line_end", .nat v.endLine),
    ("visibility", .option (fun x => .string (Visibility.word x)) v.visibility),
    ("is_exported", .bool v.isExported),
    ("signature", .option .string v.signature)]

/-- A kind as a word; the kind of a dependency is nested. -/
def EdgeKind.toJson : EdgeKind → Json
  | .contains => .string "contains"
  | .depends kind => .record [("depends", .string kind.word)]

/-- The edge, by name of its parts. -/
def Edge.toJson (e : Edge) : Json :=
  .record [("kind", e.kind.toJson), ("line", .nat e.line), ("confidence", .single e.confidence)]

/-- The declared dependency, by name of its parts. -/
def Pending.toJson (d : Pending) : Json :=
  .record [
    ("file_path", .string d.path.text),
    ("from_symbol", .string d.fromSymbol),
    ("to_symbol", .string d.toSymbol),
    ("kind", .string d.kind.word),
    ("line", .nat d.line),
    ("confidence", .single d.confidence)]

/-- The counts, by name. -/
def Census.toJson (c : Census) : Json :=
  .record [
    ("repositories", .nat c.repositories),
    ("files", .nat c.files),
    ("symbols", .nat c.symbols),
    ("dependency_edges", .nat c.dependencyEdges),
    ("unresolved_dependencies", .nat c.unresolved),
    ("entities", .nat c.entities)]

/-- An entity with the file it was found in. -/
def Entity.placedJson : Path × Entity → Json
  | (path, e) => .list [.string path.text, e.toJson]

/-- The snapshot, by name of its parts. -/
def Snapshot.toJson (s : Snapshot) : Json :=
  .record [
    ("version", .nat s.version),
    ("nodes", .array Vertex.toJson s.vertices),
    ("edges", .array (fun (source, target, e) =>
      .list [.nat source, .nat target, e.toJson]) s.arcs),
    ("dependencies", .array Pending.toJson s.pending),
    ("unresolved", .nat s.unresolved),
    ("entities", .array Entity.placedJson s.entities)]

end SymbolAtlas
