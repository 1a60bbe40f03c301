import SymbolAtlas.Record.Basic
import SymbolAtlas.Text.Dotted
import SymbolAtlas.Text.Path

/-!
# Vertices and edges

The symbol graph has a vertex for each repository, file and symbol. Containment runs from a
repository to its files and from a file to its symbols; dependencies run from a symbol, or from a
file, to a symbol.
-/

namespace SymbolAtlas

/-- What a vertex stands for. -/
inductive VertexKind where
  | repository
  | file
  | symbol (kind : SymbolKind)
  deriving DecidableEq, Repr

/-- A repository, a file or a symbol. -/
structure Vertex where
  /-- The qualified name of a symbol, and the path of a file or a repository. -/
  name : String
  kind : VertexKind
  path : Path
  startLine : Nat := 0
  endLine : Nat := 0
  visibility : Option Visibility := none
  isExported : Bool := false
  signature : Option String := none
  deriving DecidableEq, Repr

namespace Vertex

/-- The vertex of a repository. -/
def ofRepository (root : Path) : Vertex :=
  { name := root.text, kind := .repository, path := root }

/-- The vertex of a file. -/
def ofFile (path : Path) : Vertex :=
  { name := path.text, kind := .file, path }

/-- The vertex of a symbol declared in a file. -/
def ofSymbol (path : Path) (s : Symbol) : Vertex where
  name := s.qualifiedName
  kind := .symbol s.kind
  path := path
  startLine := s.startLine
  endLine := s.endLine
  visibility := some s.visibility
  isExported := s.isExported
  signature := s.signature

/-- The vertex stands for a symbol. -/
def isSymbol (v : Vertex) : Bool :=
  match v.kind with
  | .symbol _ => true
  | _ => false

/-- The last segment of the name. -/
def simpleName (v : Vertex) : String := Dotted.lastSegment v.name

end Vertex

/-- What an edge stands for. -/
inductive EdgeKind where
  | contains
  | depends (kind : DependencyKind)
  deriving DecidableEq, Repr

/-- What is known of an edge. -/
structure Edge where
  kind : EdgeKind
  /-- The first line on which the dependency was seen. -/
  line : Nat
  confidence : Single
  deriving DecidableEq, Repr

namespace Edge

/-- An edge of containment. -/
def containment : Edge := { kind := .contains, line := 0, confidence := .one }

/-- The kind of the dependency, if the edge is one. -/
def dependency? (e : Edge) : Option DependencyKind :=
  match e.kind with
  | .contains => none
  | .depends kind => some kind

end Edge

/-- A dependency as it was declared in a file, waiting to be linked. -/
structure Pending where
  path : Path
  fromSymbol : String
  toSymbol : String
  kind : DependencyKind
  line : Nat
  confidence : Single
  deriving DecidableEq, Repr

/-- A dependency found in a file. -/
def Pending.ofDependency (path : Path) (d : Dependency) : Pending where
  path := path
  fromSymbol := d.fromSymbol
  toSymbol := d.toSymbol
  kind := d.kind
  line := d.line
  confidence := d.confidence

end SymbolAtlas
