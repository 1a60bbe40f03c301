import SymbolAtlas.Tree.Node

/-!
# Cursors

A `Cursor` stands on a node of a tree and moves from there to its first child, to its next sibling
or to its parent. With nothing but these three moves, a walk goes through a tree from the top down
and left to right, and may pass over what is below a node.

* `Cursor.next?` — the next node of such a walk;
* `Cursor.walk` — what is found on the way, which ends because each step leaves fewer nodes ahead
  (`sizeAhead_of_next?`).
-/

namespace SymbolAtlas

namespace Node

mutual

/-- The number of nodes at and below a node. -/
def size : Node → Nat
  | .mk _ children => sizeAmong children + 1

/-- The number of nodes at and below several nodes. -/
def sizeAmong : List Node → Nat
  | [] => 0
  | n :: rest => n.size + sizeAmong rest

end

theorem size_eq (n : Node) : n.size = sizeAmong n.children + 1 := by
  cases n
  rw [size]
  rfl

end Node

/-- A place in a tree. -/
structure Cursor where
  node : Node
  /-- The siblings behind the node. -/
  later : List Node := []
  /-- The nodes above, innermost first, each with the siblings behind it. -/
  above : List (Node × List Node) := []

namespace Cursor

/-- The cursor on the root of a tree. -/
def atRoot (root : Node) : Cursor := { node := root }

def firstChild? (c : Cursor) : Option Cursor :=
  match c.node.children with
  | [] => none
  | node :: later => some { node, later, above := (c.node, c.later) :: c.above }

def nextSibling? (c : Cursor) : Option Cursor :=
  match c.later with
  | [] => none
  | node :: later => some { c with node, later }

def parent? (c : Cursor) : Option Cursor :=
  match c.above with
  | [] => none
  | (node, later) :: above => some { node, later, above }

/-! ### What a move does -/

section

variable {c c' : Cursor}

theorem of_firstChild? (h : c.firstChild? = some c') :
    c.node.children = c'.node :: c'.later ∧ c'.above = (c.node, c.later) :: c.above := by
  unfold firstChild? at h
  split at h
  · cases h
  · next node later hchildren =>
    cases h
    exact ⟨hchildren, rfl⟩

theorem of_nextSibling? (h : c.nextSibling? = some c') :
    c.later = c'.node :: c'.later ∧ c'.above = c.above := by
  unfold nextSibling? at h
  split at h
  · cases h
  · next node later hlater =>
    cases h
    exact ⟨hlater, rfl⟩

theorem of_parent? (h : c.parent? = some c') : c.above = (c'.node, c'.later) :: c'.above := by
  unfold parent? at h
  split at h
  · cases h
  · next node later above habove =>
    cases h
    exact habove

end

/-! ### Walking -/

/-- The next node that is not below this one: the next sibling of it, or of the nearest node above
that has one. -/
def climb? (c : Cursor) : Option Cursor :=
  match c.nextSibling? with
  | some next => some next
  | none =>
    match _h : c.parent? with
    | some parent => parent.climb?
    | none => none
termination_by c.above.length
decreasing_by simp [of_parent? _h]

/-- The next node of a walk that looks below those nodes only that satisfy `enter`. -/
def next? (enter : Node → Bool) (c : Cursor) : Option Cursor :=
  match if enter c.node then c.firstChild? else none with
  | some child => some child
  | none => c.climb?

/-- The number of nodes behind the node and all that is below it. -/
def sizeBehind (c : Cursor) : Nat :=
  Node.sizeAmong c.later + c.above.foldr (fun e n => Node.sizeAmong e.2 + n) 0

/-- The number of nodes at, below and behind the node. -/
def sizeAhead (c : Cursor) : Nat := c.node.size + c.sizeBehind

theorem sizeAhead_of_climb? {c c' : Cursor} (h : c.climb? = some c') :
    c'.sizeAhead = c.sizeBehind := by
  fun_induction climb? c with
  | case1 c sibling hsibling =>
    cases h
    obtain ⟨hlater, habove⟩ := of_nextSibling? hsibling
    simp only [sizeAhead, sizeBehind, hlater, habove, Node.sizeAmong, Nat.add_assoc]
  | case2 c hsibling parent hparent ih =>
    have hlater : c.later = [] := by
      unfold nextSibling? at hsibling
      split at hsibling
      · assumption
      · cases hsibling
    rw [ih h]
    simp only [sizeBehind, hlater, of_parent? hparent, Node.sizeAmong, List.foldr_cons,
      Nat.zero_add]
  | case3 => cases h

theorem sizeAhead_of_next? {enter : Node → Bool} {c c' : Cursor} (h : c.next? enter = some c') :
    c'.sizeAhead < c.sizeAhead := by
  have hsize := c.node.size_eq
  unfold next? at h
  split at h
  · next child hchild =>
    cases h
    split at hchild
    · obtain ⟨hchildren, habove⟩ := of_firstChild? hchild
      simp only [sizeAhead, sizeBehind, hsize, hchildren, habove, Node.sizeAmong,
        List.foldr_cons]
      omega
    · cases hchild
  · rw [sizeAhead_of_climb? h, sizeAhead]
    omega

/-- What is found at the nodes of a walk, from the cursor to the end of the tree, behind what is
`found` already, the latest first. -/
def walk {β : Type} (enter : Node → Bool) (observe : Node → Option β) (found : List β)
    (c : Cursor) : List β :=
  let found := (observe c.node).toList ++ found
  match _h : c.next? enter with
  | some next => walk enter observe found next
  | none => found.reverse
termination_by c.sizeAhead
decreasing_by exact sizeAhead_of_next? _h

end Cursor

end SymbolAtlas
