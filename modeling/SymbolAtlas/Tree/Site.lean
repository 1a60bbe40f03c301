import SymbolAtlas.Tree.Node

/-!
# Sites

A `Site` is a node together with the way down to it: its ancestors, innermost first, each with the
position of the child taken. From a site one can look upwards, which a bare node does not allow.
Its `address`, the list of positions, tells sites of one tree apart.
-/

namespace SymbolAtlas

/-- A node and the way down to it, innermost step first. -/
structure Site where
  node : Node
  above : List (Nat × Node) := []
  deriving Inhabited

namespace Site

/-- The positions taken on the way down, innermost first. -/
def address (s : Site) : List Nat := s.above.map (·.1)

/-- The site of the child at a position. -/
def child? (s : Site) (i : Nat) : Option Site :=
  (s.node.children[i]?).map fun n => { node := n, above := (i, s.node) :: s.above }

/-- The sites of all children. -/
def children (s : Site) : List Site :=
  s.node.children.zipIdx.map fun (n, i) => { node := n, above := (i, s.node) :: s.above }

/-- The sites of the children that are rules of the grammar. -/
def namedChildren (s : Site) : List Site := s.children.filter (·.node.label.named)

/-- The site of the first child that fills a field. -/
def field? (s : Site) (field : String) : Option Site :=
  s.children.find? (·.node.label.field == field)

/-- The site the tree is rooted at. -/
def root (s : Site) : Node :=
  match s.above.getLast? with
  | some (_, n) => n
  | none => s.node

/-- The members that enclose a place, innermost first, up to the nearest type or namespace. -/
def membersAround : List (Nat × Node) → List Site
  | [] => []
  | (_, n) :: above =>
    if n.kind.isMember then { node := n, above } :: membersAround above
    else if n.kind.isType || n.kind.isNamespace then []
    else membersAround above

/-- The innermost member that encloses a site. -/
def enclosingMember? (s : Site) : Option Site := (membersAround s.above).head?

mutual

/-- The sites at and below a node, from the top down and left to right. Only named children that
satisfy `enter` are entered, and nothing below a node at which `stop` holds. -/
def preorderFrom (stop enter : Node → Bool) (above : List (Nat × Node)) : Node → List Site
  | .mk label children =>
    let node := Node.mk label children
    { node, above } :: if stop node then [] else preorderIn stop enter above node 0 children

/-- The sites at and below the children of a node, from position `i` on. -/
def preorderIn (stop enter : Node → Bool) (above : List (Nat × Node)) (parent : Node) (i : Nat) :
    List Node → List Site
  | [] => []
  | child :: rest =>
    (if child.label.named && enter child then
      preorderFrom stop enter ((i, parent) :: above) child
    else []) ++ preorderIn stop enter above parent (i + 1) rest

end

/-- The sites at and below a node, through named children, with nothing below where `stop` holds. -/
def preorder (n : Node) (stop : Node → Bool := fun _ => false) : List Site :=
  preorderFrom stop (fun _ => true) [] n

end Site

end SymbolAtlas
