import SymbolAtlas.Graph.Pool
import SymbolAtlas.Graph.Vertex

/-!
# Directed graphs

Vertices and the arcs between them, each under a number of its own. The arcs at a vertex are listed
newest first.
-/

namespace SymbolAtlas

/-- An edge with its two ends. -/
structure Arc where
  source : Nat
  target : Nat
  edge : Edge
  deriving DecidableEq, Repr

/-- A directed graph. -/
structure Net where
  vertices : Pool Vertex := {}
  arcs : Pool Arc := {}
  deriving Repr

namespace Net

/-- Adds a vertex, under the number `net.vertices.next`. -/
def addVertex (net : Net) (v : Vertex) : Net :=
  { net with vertices := net.vertices.add v }

/-- Adds an arc, under the number `net.arcs.next`. -/
def addArc (net : Net) (source target : Nat) (edge : Edge) : Net :=
  { net with arcs := net.arcs.add { source, target, edge } }

/-- The vertex under a number. -/
def vertex? (net : Net) (number : Nat) : Option Vertex := net.vertices.get? number

/-- The arc under a number. -/
def arc? (net : Net) (number : Nat) : Option Arc := net.arcs.get? number

/-- The arcs that leave a vertex, the newest first. -/
def outgoing (net : Net) (number : Nat) : List (Nat × Arc) :=
  net.arcs.items.filter fun a => a.2.source = number

/-- The arcs that enter a vertex, the newest first. -/
def incoming (net : Net) (number : Nat) : List (Nat × Arc) :=
  net.arcs.items.filter fun a => a.2.target = number

/-- Takes out arcs, one after the other. -/
def eraseArcs (net : Net) (numbers : List Nat) : Net :=
  { net with arcs := numbers.foldl Pool.erase net.arcs }

/-- Takes out a vertex with all its arcs: first those that leave it, then those that enter it. -/
def eraseVertex (net : Net) (number : Nat) : Net :=
  match net.vertex? number with
  | none => net
  | some _ =>
    let net := net.eraseArcs ((net.outgoing number).map Prod.fst)
    let net := net.eraseArcs ((net.incoming number).map Prod.fst)
    { net with vertices := net.vertices.erase number }

end Net

end SymbolAtlas
