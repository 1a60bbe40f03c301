import Mathlib.Tactic
import SymbolAtlas.Tree.Node

/-!
# The nodes of a tree

Facts about trees that do not depend on what is done with them: induction from children to parents,
the list of all nodes at and below a node, and where a tree of the grammar has its namespaces.
-/

namespace SymbolAtlas.Node

/-- Induction over a tree, from the children of a node to the node. -/
@[elab_as_elim]
theorem childInduction {motive : Node → Prop} (n : Node)
    (node : ∀ n : Node, (∀ c ∈ n.children, motive c) → motive n) : motive n := by
  match n with
  | .mk label children => exact node _ fun c hc => childInduction c node
termination_by sizeOf n
decreasing_by
  have hlt : sizeOf c < sizeOf children := List.sizeOf_lt_of_mem hc
  rw [Node.mk.sizeOf_spec]
  omega

mutual

/-- The node and all nodes below it. -/
def nodes : Node → List Node
  | .mk label children => .mk label children :: nodesAmong children

/-- The nodes at and below several nodes. -/
def nodesAmong : List Node → List Node
  | [] => []
  | n :: rest => n.nodes ++ nodesAmong rest

end

theorem nodes_eq (n : Node) : n.nodes = n :: nodesAmong n.children := by
  cases n
  rw [nodes]
  rfl

theorem mem_nodesAmong_iff {m : Node} {ns : List Node} :
    m ∈ nodesAmong ns ↔ ∃ n ∈ ns, m ∈ n.nodes := by
  induction ns with
  | nil => simp [nodesAmong]
  | cons n ns ih => simp [nodesAmong, ih]

theorem mem_nodes_iff {m n : Node} : m ∈ n.nodes ↔ m = n ∨ ∃ c ∈ n.children, m ∈ c.nodes := by
  cases n with
  | mk label children => rw [nodes, List.mem_cons, mem_nodesAmong_iff]; rfl

theorem self_mem_nodes (n : Node) : n ∈ n.nodes := mem_nodes_iff.2 (.inl rfl)

theorem mem_nodes_of_mem_children {m c n : Node} (hc : c ∈ n.children) (hm : m ∈ c.nodes) :
    m ∈ n.nodes :=
  mem_nodes_iff.2 (.inr ⟨c, hc, hm⟩)

theorem child_mem_nodes {c n : Node} (hc : c ∈ n.children) : c ∈ n.nodes :=
  mem_nodes_of_mem_children hc c.self_mem_nodes

theorem mem_nodes_trans {k m n : Node} (hk : k ∈ m.nodes) (hm : m ∈ n.nodes) : k ∈ n.nodes := by
  induction n using childInduction with
  | node n ih =>
    rcases mem_nodes_iff.1 hm with rfl | ⟨c, hc, hm⟩
    · exact hk
    · exact mem_nodes_of_mem_children hc (ih c hc hm)

/-- Induction over a tree, from all nodes below a node to the node. -/
@[elab_as_elim]
theorem belowInduction {motive : Node → Prop} (n : Node)
    (node : ∀ n : Node, (∀ c ∈ n.children, ∀ m ∈ c.nodes, motive m) → motive n) : motive n := by
  have hall : ∀ m ∈ n.nodes, motive m := by
    induction n using childInduction with
    | node n ih =>
      intro m hm
      rcases mem_nodes_iff.1 hm with rfl | ⟨c, hc, hm⟩
      · exact node m ih
      · exact ih c hc m hm
  exact hall n n.self_mem_nodes

/-! ### The bytes of a tree -/

/-- Throughout the tree, children lie inside their parents and follow each other. -/
structure InOrder (n : Node) : Prop where
  inside : ∀ m ∈ n.nodes, ∀ c ∈ m.children,
    m.start ≤ c.start ∧ c.start ≤ c.stop ∧ c.stop ≤ m.stop
  ordered : ∀ m ∈ n.nodes, m.children.Pairwise fun a b => a.stop ≤ b.start

namespace InOrder

variable {n m c : Node}

theorem of_mem_nodes (h : n.InOrder) (hm : m ∈ n.nodes) : m.InOrder where
  inside k hk := h.inside k (mem_nodes_trans hk hm)
  ordered k hk := h.ordered k (mem_nodes_trans hk hm)

theorem child (h : n.InOrder) (hc : c ∈ n.children) : c.InOrder :=
  h.of_mem_nodes (child_mem_nodes hc)

theorem start_le (h : n.InOrder) (hm : m ∈ n.nodes) : n.start ≤ m.start := by
  induction n using childInduction with
  | node n ih =>
    rcases mem_nodes_iff.1 hm with rfl | ⟨c, hc, hm⟩
    · exact le_rfl
    · exact (h.inside n n.self_mem_nodes c hc).1.trans (ih c hc (h.child hc) hm)

theorem stop_le (h : n.InOrder) (hm : m ∈ n.nodes) : m.stop ≤ n.stop := by
  induction n using childInduction with
  | node n ih =>
    rcases mem_nodes_iff.1 hm with rfl | ⟨c, hc, hm⟩
    · exact le_rfl
    · exact (ih c hc (h.child hc) hm).trans (h.inside n n.self_mem_nodes c hc).2.2

theorem start_le_stop (h : n.InOrder) (hself : n.start ≤ n.stop) (hm : m ∈ n.nodes) :
    m.start ≤ m.stop := by
  induction n using childInduction with
  | node n ih =>
    rcases mem_nodes_iff.1 hm with rfl | ⟨c, hc, hm⟩
    · exact hself
    · exact ih c hc (h.child hc) (h.inside n n.self_mem_nodes c hc).2.1 hm

end InOrder

/-! ### Children by position -/

theorem children_of_drop {n c : Node} {i : Nat} {cs : List Node} (h : n.children.drop i = c :: cs) :
    n.children[i]? = some c ∧ n.children.drop (i + 1) = cs := by
  constructor
  · rw [← List.head?_drop, h, List.head?_cons]
  · rw [← List.drop_drop, h, List.drop_one, List.tail_cons]

theorem lt_length_of_bodyIndex? {n : Node} {i : Nat} (h : n.bodyIndex? = some i) :
    i < n.children.length := by
  rcases Option.or_eq_some_iff.1 h with h | ⟨-, h⟩ <;>
    exact (List.findIdx?_eq_some_iff_findIdx_eq.1 h).1

theorem body?_eq (n : Node) : n.body? = n.bodyIndex?.bind (n.children[·]?) := by
  rw [body?, bodyIndex?, field?, fieldIndex?, named?, namedIndex?,
    List.find?_eq_bind_findIdx?_getElem?, List.find?_eq_bind_findIdx?_getElem?]
  cases h : n.children.findIdx? (·.label.field == "body") with
  | none => rfl
  | some i =>
    have hlt : i < n.children.length := (List.findIdx?_eq_some_iff_findIdx_eq.1 h).1
    simp [List.getElem?_eq_getElem hlt]

theorem getElem?_of_bodyIndex? {n : Node} {i : Nat} (h : n.bodyIndex? = some i) :
    ∃ b, n.children[i]? = some b ∧ n.body? = some b := by
  have hget := List.getElem?_eq_getElem (lt_length_of_bodyIndex? h)
  exact ⟨_, hget, by rw [body?_eq, h, Option.bind_some, hget]⟩

/-- Where the declarations in a namespace or type stand: in its body, or else right below it. -/
def held (n : Node) : List Node := (n.body?.map children).getD n.children

theorem held_of_body? {n b : Node} (h : n.body? = some b) : n.held = b.children := by
  rw [held, h]
  rfl

theorem mem_children_of_body? {n b : Node} (h : n.body? = some b) : b ∈ n.children := by
  rw [body?_eq, Option.bind_eq_some_iff] at h
  obtain ⟨i, -, hb⟩ := h
  exact List.mem_of_getElem? hb

theorem below_of_mem_held {n m : Node} (hm : m ∈ n.held) : ∃ c ∈ n.children, m ∈ c.nodes := by
  cases h : n.body? with
  | none =>
    rw [held, h] at hm
    exact ⟨m, hm, m.self_mem_nodes⟩
  | some b =>
    rw [held_of_body? h] at hm
    exact ⟨b, mem_children_of_body? h, child_mem_nodes hm⟩

/-! ### Where namespaces stand -/

/-- No node at or below this one is a file-scoped namespace. -/
def LacksFileScoped (n : Node) : Prop := ∀ m ∈ n.nodes, m.kind ≠ .fileScopedNamespace

theorem LacksFileScoped.of_mem_nodes {m n : Node} (h : n.LacksFileScoped) (hm : m ∈ n.nodes) :
    m.LacksFileScoped :=
  fun _ hk => h _ (mem_nodes_trans hk hm)

theorem LacksFileScoped.of_mem_children {c n : Node} (h : n.LacksFileScoped)
    (hc : c ∈ n.children) : c.LacksFileScoped :=
  h.of_mem_nodes (child_mem_nodes hc)

theorem LacksFileScoped.of_children {n : Node} (hkind : n.kind ≠ .fileScopedNamespace)
    (h : ∀ c ∈ n.children, c.LacksFileScoped) : n.LacksFileScoped := by
  intro m hm
  rcases mem_nodes_iff.1 hm with rfl | ⟨c, hc, hm⟩
  · exact hkind
  · exact h c hc m hm

theorem LacksFileScoped.kind_ne {n : Node} (h : n.LacksFileScoped) :
    n.kind ≠ .fileScopedNamespace :=
  h n n.self_mem_nodes

/-- The tree has file-scoped namespaces only as children of its root. -/
def FileScopedOnTop (root : Node) : Prop :=
  ∀ c ∈ root.children, ∀ d ∈ c.children, d.LacksFileScoped

/-- The root is what the grammar makes of a whole text, or of one that it cannot read. The grammar
delivers no tree with another root. -/
def IsUnit (root : Node) : Prop := root.kind = .compilationUnit ∨ root.kind = .error

/-- No namespace is declared below a type. -/
def NoNamespaceInType (root : Node) : Prop :=
  ∀ t ∈ root.nodes, t.kind.isType = true →
    ∀ c ∈ t.children, ∀ m ∈ c.nodes, m.kind.isNamespace = false

theorem NoNamespaceInType.of_mem_nodes {m n : Node} (h : n.NoNamespaceInType) (hm : m ∈ n.nodes) :
    m.NoNamespaceInType :=
  fun t ht => h t (mem_nodes_trans ht hm)

end SymbolAtlas.Node
