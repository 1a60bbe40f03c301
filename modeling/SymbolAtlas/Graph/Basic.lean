import SymbolAtlas.Graph.Index
import SymbolAtlas.Graph.Net
import SymbolAtlas.Record.Entity

/-!
# The atlas

The symbol graph of a set of repositories, with the indexes that find its vertices by path and by
name. Dependencies are kept as they were declared and become edges only by linking, so that files
may come in any order.

* `Atlas.addRepository`, `Atlas.ingest`, `Atlas.removeFile` change what the atlas covers.
* `Atlas.repositoryOf?` gives the innermost repository around a path.
-/

namespace SymbolAtlas

/-- A symbol graph and its indexes. -/
structure Atlas where
  net : Net := {}
  /-- The vertex of each repository, by the steps of its root. -/
  repositories : Index (List Component) Nat := {}
  /-- The vertex of each file, by the steps of its path. -/
  files : Index (List Component) Nat := {}
  /-- The symbols with a qualified name; a type in parts has several. -/
  qualified : Index String (List Nat) := {}
  /-- The symbols with a last name segment. -/
  simple : Index String (List Nat) := {}
  /-- The one arc for each source, target and kind of dependency. -/
  linked : Index (Nat × Nat × DependencyKind) Nat := {}
  /-- All declared dependencies. -/
  pending : List Pending := []
  /-- The number of declared dependencies that the last linking found no edge for. -/
  unresolved : Nat := 0
  /-- The entities found in each file. -/
  entities : List (Path × Entity) := []
  deriving Repr

namespace Atlas

/-- Adds a repository unless it is there already, and gives its vertex. -/
def addRepository (g : Atlas) (root : Path) : Nat × Atlas :=
  match g.repositories.find? root.components with
  | some number => (number, g)
  | none =>
    let number := g.net.vertices.next
    (number, { g with
      net := g.net.addVertex (.ofRepository root)
      repositories := g.repositories.insert root.components number })

/-- Of two repositories the one with the longer root, the later of two equal ones. -/
def deeper (best : Option (List Component × Nat)) (entry : List Component × Nat) :
    Option (List Component × Nat) :=
  match best with
  | some b => if entry.1.length < b.1.length then some b else some entry
  | none => some entry

/-- The repository with the longest root that contains the path. -/
def repositoryOf? (g : Atlas) (path : Path) : Option Nat :=
  ((g.repositories.entries.filter fun e => e.1.isPrefixOf path.components).foldl deeper none).map
    Prod.snd

/-- Takes out one symbol, with its edges and its place in the indexes by name. -/
def removeSymbol (g : Atlas) (number : Nat) : Atlas :=
  match g.net.vertex? number with
  | none => g
  | some v =>
    { g with
      net := g.net.eraseVertex number
      qualified := g.qualified.remove v.name number
      simple := g.simple.remove v.simpleName number }

/-- The vertices that a vertex contains, the newest first. -/
def members (g : Atlas) (number : Nat) : List Nat :=
  ((g.net.outgoing number).filter fun a => a.2.edge.kind = .contains).map fun a => a.2.target

/-- Takes out a file with its symbols, its declared dependencies and its entities. Edges that lead
to its symbols go with them. -/
def removeFile (g : Atlas) (path : Path) : Atlas :=
  match g.files.find? path.components with
  | none => g
  | some file =>
    let g' := (g.members file).foldl removeSymbol { g with files := g.files.erase path.components }
    let net := g'.net.eraseVertex file
    { g' with
      net
      linked := g'.linked.keep fun arc => (net.arc? arc).isSome
      pending := g'.pending.filter fun d => !d.path.same path
      entities := g'.entities.filter fun e => !e.1.same path }

/-- Adds a symbol to the file with the vertex `file`. -/
def addSymbol (path : Path) (file : Nat) (g : Atlas) (s : Symbol) : Atlas :=
  let v := Vertex.ofSymbol path s
  let number := g.net.vertices.next
  { g with
    net := (g.net.addVertex v).addArc file number .containment
    qualified := g.qualified.add v.name number
    simple := g.simple.add v.simpleName number }

/-- Adds a file with what was found in it, in place of what was known of it before, and gives its
vertex. -/
def ingest (g : Atlas) (repository : Option Nat) (path : Path) (found : Findings)
    (entities : List Entity) : Nat × Atlas :=
  let g := g.removeFile path
  let file := g.net.vertices.next
  let net := g.net.addVertex (.ofFile path)
  let net :=
    match repository with
    | some number => net.addArc number file .containment
    | none => net
  let g := { g with net, files := g.files.insert path.components file }
  let g := found.symbols.foldl (addSymbol path file) g
  (file, { g with
    pending := g.pending ++ found.dependencies.map (.ofDependency path)
    entities := g.entities ++ entities.map fun e => (path, e) })

end Atlas

end SymbolAtlas
