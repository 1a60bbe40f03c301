import SymbolAtlas.Graph.Basic

/-!
# Asking the atlas
-/

namespace SymbolAtlas

/-- How much an atlas holds. -/
structure Census where
  repositories : Nat
  files : Nat
  symbols : Nat
  dependencyEdges : Nat
  unresolved : Nat
  entities : Nat
  deriving DecidableEq, Repr

namespace Atlas

/-- All symbols with a qualified name. -/
def find (g : Atlas) (name : String) : List Vertex :=
  (g.qualified.list name).filterMap g.net.vertex?

/-- The dependencies of all symbols with a qualified name, each with the vertex it leads to. -/
def dependenciesOf (g : Atlas) (name : String) : List (Vertex × Edge) :=
  (g.qualified.list name).flatMap fun n =>
    ((g.net.outgoing n).filter fun a => a.2.edge.kind ≠ .contains).filterMap fun a =>
      (g.net.vertex? a.2.target).map fun v => (v, a.2.edge)

/-- The dependencies on all symbols with a qualified name, each with the vertex it comes from. -/
def dependentsOf (g : Atlas) (name : String) : List (Vertex × Edge) :=
  (g.qualified.list name).flatMap fun n =>
    ((g.net.incoming n).filter fun a => a.2.edge.kind ≠ .contains).filterMap fun a =>
      (g.net.vertex? a.2.source).map fun v => (v, a.2.edge)

/-- How much the atlas holds. -/
def census (g : Atlas) : Census :=
  let vertices := g.net.vertices.items.map Prod.snd
  { repositories := vertices.countP fun v => v.kind = .repository
    files := vertices.countP fun v => v.kind = .file
    symbols := vertices.countP Vertex.isSymbol
    dependencyEdges := g.linked.size
    unresolved := g.unresolved
    entities := g.entities.length }

end Atlas

end SymbolAtlas
