import SymbolAtlas.Failure
import SymbolAtlas.Graph.Basic
import SymbolAtlas.Snapshot.Codec

/-!
# Snapshots

An atlas without its indexes, in a form that can be stored: the vertices one after the other, the
arcs by the positions of their ends, and what the atlas keeps beside the graph. Loading rebuilds the
indexes.

* `Snapshot.ofAtlas`, `Snapshot.toAtlas` go from one to the other.
* `Atlas.toBytes`, `Atlas.ofBytes` store and load.
-/

namespace SymbolAtlas

/-- The storable form of an atlas. -/
structure Snapshot where
  version : Nat
  vertices : List Vertex
  /-- Arcs, by the positions of their source and target. -/
  arcs : List (Nat × Nat × Edge)
  pending : List Pending
  unresolved : Nat
  entities : List (Path × Entity)
  deriving DecidableEq, Repr

namespace Snapshot

/-- The version of the format. -/
def currentVersion : Nat := 1

/-! ### To and from an atlas -/

/-- The snapshot of an atlas. -/
def ofAtlas (g : Atlas) : Snapshot :=
  let numbered := g.net.vertices.numbered
  let position? (number : Nat) := (numbered.map Prod.fst).idxOf? number
  { version := currentVersion
    vertices := numbered.map Prod.snd
    arcs := g.net.arcs.numbered.filterMap fun (_, a) => do
      some (← position? a.source, ← position? a.target, a.edge)
    pending := g.pending
    unresolved := g.unresolved
    entities := g.entities }

/-- Adds a vertex to an atlas and to the index that finds it. -/
def restoreVertex (g : Atlas) (v : Vertex) : Atlas :=
  let number := g.net.vertices.next
  let g := { g with net := g.net.addVertex v }
  match v.kind with
  | .repository => { g with repositories := g.repositories.insert v.path.components number }
  | .file => { g with files := g.files.insert v.path.components number }
  | .symbol _ =>
    { g with
      qualified := g.qualified.add v.name number
      simple := g.simple.add v.simpleName number }

/-- Adds an arc to an atlas of `count` vertices, unless one of its ends is missing. -/
def restoreArc (count : Nat) (g : Atlas) : Nat × Nat × Edge → Atlas
  | (source, target, edge) =>
    if source < count ∧ target < count then
      let number := g.net.arcs.next
      let g := { g with net := g.net.addArc source target edge }
      match edge.dependency? with
      | some kind => { g with linked := g.linked.insert (source, target, kind) number }
      | none => g
    else g

/-- The atlas of a snapshot. -/
def toAtlas (s : Snapshot) : Atlas :=
  let g := s.vertices.foldl restoreVertex {}
  let g := s.arcs.foldl (restoreArc s.vertices.length) g
  { g with pending := s.pending, unresolved := s.unresolved, entities := s.entities }

/-! ### Bytes -/

/-- Paths, as they are written. -/
def path : Codec Path := Codec.text.through Path.text Path.mk

/-- What a vertex stands for: its position among the three, then the kind of a symbol. -/
def vertexKind : Codec VertexKind where
  write
    | .repository => (Codec.word 4).write 0
    | .file => (Codec.word 4).write 1
    | .symbol kind => (Codec.word 4).write 2 ++ (Codec.choice SymbolKind.all).write kind
  read s :=
    match (Codec.word 4).read s with
    | some (0, s) => some (.repository, s)
    | some (1, s) => some (.file, s)
    | some (2, s) => ((Codec.choice SymbolKind.all).read s).map fun (kind, s) => (.symbol kind, s)
    | _ => none

/-- What an edge stands for: its position among the two, then the kind of a dependency. -/
def edgeKind : Codec EdgeKind where
  write
    | .contains => (Codec.word 4).write 0
    | .depends kind => (Codec.word 4).write 1 ++ (Codec.choice DependencyKind.all).write kind
  read s :=
    match (Codec.word 4).read s with
    | some (0, s) => some (.contains, s)
    | some (1, s) =>
      ((Codec.choice DependencyKind.all).read s).map fun (kind, s) => (.depends kind, s)
    | _ => none

/-- Vertices, part by part. -/
def vertex : Codec Vertex :=
  (Codec.text.pair <| vertexKind.pair <| path.pair <| Codec.size.pair <| Codec.size.pair <|
    (Codec.choice Visibility.all).option.pair <| Codec.bool.pair Codec.text.option).through
    (fun v =>
      (v.name, v.kind, v.path, v.startLine, v.endLine, v.visibility, v.isExported, v.signature))
    fun (name, kind, path, startLine, endLine, visibility, isExported, signature) =>
      { name, kind, path, startLine, endLine, visibility, isExported, signature }

/-- Edges, part by part. -/
def edge : Codec Edge :=
  (edgeKind.pair <| Codec.size.pair Codec.single).through
    (fun e => (e.kind, e.line, e.confidence))
    fun (kind, line, confidence) => { kind, line, confidence }

/-- Declared dependencies, part by part. -/
def dependency : Codec Pending :=
  (path.pair <| Codec.text.pair <| Codec.text.pair <| (Codec.choice DependencyKind.all).pair <|
    Codec.size.pair Codec.single).through
    (fun d => (d.path, d.fromSymbol, d.toSymbol, d.kind, d.line, d.confidence))
    fun (path, fromSymbol, toSymbol, kind, line, confidence) =>
      { path, fromSymbol, toSymbol, kind, line, confidence }

/-- Entities, part by part. -/
def entity : Codec Entity :=
  (Codec.text.pair <| Codec.text.pair <| Codec.text.pair Codec.size).through
    (fun e => (e.framework, e.kind, e.symbol, e.line))
    fun (framework, kind, symbol, line) => { framework, kind, symbol, line }

/-- Snapshots, part by part. -/
def codec : Codec Snapshot :=
  ((Codec.word 4).pair <| vertex.list.pair <| (Codec.size.pair (Codec.size.pair edge)).list.pair <|
    dependency.list.pair <| Codec.size.pair (path.pair entity).list).through
    (fun s => (s.version, s.vertices, s.arcs, s.pending, s.unresolved, s.entities))
    fun (version, vertices, arcs, pending, unresolved, entities) =>
      { version, vertices, arcs, pending, unresolved, entities }

/-- How a version that cannot be loaded is reported. -/
def unsupported (version : Nat) : String :=
  "snapshot version " ++ Nat.repr version ++ " is not supported (expected "
    ++ Nat.repr currentVersion ++ ")"

end Snapshot

namespace Atlas

/-- The stored form of an atlas. -/
def toBytes (g : Atlas) : Bytes := Snapshot.codec.write (.ofAtlas g)

/-- Loads a stored atlas. Bytes after its end are ignored, and the version is looked at last. -/
def ofBytes (bytes : Bytes) : Except Failure Atlas :=
  match Snapshot.codec.read bytes with
  | none => .error .malformedSnapshot
  | some (s, _) =>
    if s.version = Snapshot.currentVersion then .ok s.toAtlas
    else .error (.invalidSettings (Snapshot.unsupported s.version))

end Atlas

end SymbolAtlas
