import SymbolAtlas.Graph.Basic

/-!
# Linking

Linking turns the declared dependencies into edges between vertices. The source of a dependency is
the symbol with exactly that name, or else the file it was declared in. Its target is the symbol
with exactly that name; or else one whose name ends in the target, where that has several segments;
or else one with the same last segment. Wherever several symbols fit, one in the same file is
preferred, and then the first. Dependencies of one kind between the same vertices share an edge.
-/

namespace SymbolAtlas.Atlas

/-- The first of the vertices that lies in the file, or else the first of all. -/
def preferFile (g : Atlas) (path : Path) (candidates : List Nat) : Option Nat :=
  (candidates.find? fun n => (g.net.vertex? n).any fun v => v.path.same path).or candidates.head?

/-- The symbol with a qualified name. -/
def named? (g : Atlas) (name : String) (path : Path) : Option Nat :=
  g.preferFile path (g.qualified.list name)

/-- The symbols whose name ends in the target, which has several segments. -/
def endingIn (g : Atlas) (target : String) : List Nat :=
  let last := Dotted.lastSegment target
  if last = target then []
  else
    (g.simple.list last).filter fun n =>
      (g.net.vertex? n).any fun v => Str.endsWith v.name ("." ++ target)

/-- The symbol that a dependency declared in a file leads to. -/
def target? (g : Atlas) (target : String) (path : Path) : Option Nat :=
  (g.named? target path).or
    ((g.preferFile path (g.endingIn target)).or
      (g.preferFile path (g.simple.list (Dotted.lastSegment target))))

/-- The vertex that a dependency declared in a file comes from. -/
def source? (g : Atlas) (source : String) (path : Path) : Option Nat :=
  (g.named? source path).or (g.files.find? path.components)

/-- The two ends of a dependency, when it has both and they differ. -/
def ends? (g : Atlas) (d : Pending) : Option (Nat × Nat) :=
  match g.source? d.fromSymbol d.path, g.target? d.toSymbol d.path with
  | some source, some target => if source = target then none else some (source, target)
  | _, _ => none

/-- What an edge becomes when the same dependency is seen once more. -/
def sharedEdge (d : Pending) (e : Edge) : Edge :=
  { e with confidence := e.confidence.max d.confidence, line := min e.line d.line }

/-- Joins two vertices by a dependency. -/
def connect (g : Atlas) (source target : Nat) (d : Pending) : Atlas :=
  let key := (source, target, d.kind)
  match (g.linked.find? key).filter fun arc => (g.net.arc? arc).isSome with
  | some arc =>
    { g with net := { g.net with
      arcs := g.net.arcs.modify arc fun a => { a with edge := sharedEdge d a.edge } } }
  | none =>
    { g with
      net := g.net.addArc source target
        { kind := .depends d.kind, line := d.line, confidence := d.confidence }
      linked := g.linked.insert key g.net.arcs.next }

/-- Links one dependency, or counts it as unresolved. -/
def linkOne (g : Atlas) (d : Pending) : Atlas :=
  match g.ends? d with
  | some (source, target) => g.connect source target d
  | none => { g with unresolved := g.unresolved + 1 }

/-- The atlas without any dependency edge. -/
def unlinked (g : Atlas) : Atlas :=
  let stale := (g.net.arcs.numbered.filter fun a => a.2.edge.kind ≠ .contains).map Prod.fst
  { g with net := g.net.eraseArcs stale, linked := {}, unresolved := 0 }

/-- Links all declared dependencies anew. Those without an edge are counted in `unresolved`. -/
def link (g : Atlas) : Atlas :=
  g.pending.foldl linkOne g.unlinked

end SymbolAtlas.Atlas
