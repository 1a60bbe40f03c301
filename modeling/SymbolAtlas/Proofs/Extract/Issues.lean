import Mathlib.Tactic
import SymbolAtlas.Extract.Basic
import SymbolAtlas.Proofs.Tree.Nodes

/-!
# Every syntax error of a tree is reported once

The syntax errors of a tree are collected by a cursor that passes over all that lies below a node
without an error. What a full walk would still come to from a cursor is a list of nodes
(`Cursor.ahead`), and one step takes from its front the node of the cursor and, if the step passes
over them, the nodes below it (`Cursor.ahead_eq`).

* `Cursor.walk_eq` — a walk that passes over nothing of note finds what a full walk finds.
* `Cursor.after_eq_none` — a walk has no more steps than there are nodes.
* `Node.syntaxIssues_forall₂` — the syntax errors of a tree.
-/

namespace SymbolAtlas

namespace Cursor

/-! ### The nodes ahead -/

/-- The nodes behind the node of the cursor and all that is below it, in the order of a walk. -/
def behind (c : Cursor) : List Node :=
  Node.nodesAmong c.later ++ c.above.flatMap fun e => Node.nodesAmong e.2

/-- The nodes at, below and behind the node of the cursor, in the order of a walk. -/
def ahead (c : Cursor) : List Node := c.node.nodes ++ c.behind

theorem ahead_atRoot (root : Node) : (atRoot root).ahead = root.nodes := by
  simp [ahead, behind, atRoot, Node.nodesAmong]

variable {c c' : Cursor}

theorem nextSibling?_eq_none_iff : c.nextSibling? = none ↔ c.later = [] := by
  unfold nextSibling?
  split <;> simp [*]

theorem parent?_eq_none_iff : c.parent? = none ↔ c.above = [] := by
  unfold parent?
  split <;> simp [*]

theorem firstChild?_eq_none_iff : c.firstChild? = none ↔ c.node.children = [] := by
  unfold firstChild?
  split <;> simp [*]

theorem ahead_of_nextSibling? (h : c.nextSibling? = some c') : c'.ahead = c.behind := by
  obtain ⟨hlater, habove⟩ := of_nextSibling? h
  rw [ahead, behind, behind, hlater, habove, Node.nodesAmong, List.append_assoc]

theorem behind_of_parent? (hlater : c.later = []) (h : c.parent? = some c') :
    c'.behind = c.behind := by
  rw [behind, behind, hlater, of_parent? h, List.flatMap_cons, Node.nodesAmong, List.nil_append]

theorem ahead_of_firstChild? (h : c.firstChild? = some c') :
    c.ahead = c.node :: c'.ahead := by
  obtain ⟨hchildren, habove⟩ := of_firstChild? h
  simp only [ahead, behind, habove, Node.nodes_eq c.node, hchildren, List.flatMap_cons,
    Node.nodesAmong, List.cons_append, List.append_assoc]

/-- Climbing leads past nothing that lies behind. -/
theorem behind_eq (c : Cursor) : c.behind = (c.climb?.map ahead).getD [] := by
  fun_induction climb? c with
  | case1 c sibling hsibling => exact (ahead_of_nextSibling? hsibling).symm
  | case2 c hsibling parent hparent ih =>
    rw [← ih, behind_of_parent? (nextSibling?_eq_none_iff.1 hsibling) hparent]
  | case3 c hsibling hparent =>
    rw [behind, nextSibling?_eq_none_iff.1 hsibling, parent?_eq_none_iff.1 hparent]
    rfl

/-- One step of a walk passes the node of the cursor and, unless it is entered, all nodes below. -/
theorem ahead_eq (enter : Node → Bool) (c : Cursor) :
    c.ahead = c.node :: (if enter c.node then [] else Node.nodesAmong c.node.children) ++
      ((c.next? enter).map ahead).getD [] := by
  have hpast : c.ahead =
      c.node :: Node.nodesAmong c.node.children ++ (c.climb?.map ahead).getD [] := by
    rw [← behind_eq, ahead, Node.nodes_eq]
  by_cases henter : enter c.node = true
  · cases hchild : c.firstChild? with
    | none =>
      rw [hpast, firstChild?_eq_none_iff.1 hchild]
      simp [next?, henter, hchild, Node.nodesAmong]
    | some child => simp [next?, henter, hchild, ahead_of_firstChild? hchild]
  · rw [hpast]
    simp [next?, henter]

/-! ### Walks -/

section

variable {β : Type} {enter : Node → Bool} {observe : Node → Option β}

/-- If a step passes over nothing of note, the rest of the walk finds all but what is found at the
node of the cursor. -/
theorem filterMap_ahead (hpast : enter c.node = false →
      ∀ m ∈ Node.nodesAmong c.node.children, observe m = none) :
    c.ahead.filterMap observe =
      (observe c.node).toList ++ (((c.next? enter).map ahead).getD []).filterMap observe := by
  have hskip : (if enter c.node then [] else Node.nodesAmong c.node.children).filterMap observe =
      [] := by
    split
    · rfl
    · next henter => exact List.filterMap_eq_nil_iff.2 (hpast (by simpa using henter))
  rw [ahead_eq enter c, List.filterMap_append, List.filterMap_cons, hskip]
  cases observe c.node <;> rfl

/-- If a walk passes over nothing of note, it finds what is to be found at all nodes ahead. -/
theorem walk_eq (found : List β)
    (hpast : ∀ n ∈ c.ahead, enter n = false → ∀ m ∈ Node.nodesAmong n.children, observe m = none) :
    c.walk enter observe found = found.reverse ++ c.ahead.filterMap observe := by
  have hstep {c : Cursor} (hpast : ∀ n ∈ c.ahead, enter n = false →
      ∀ m ∈ Node.nodesAmong n.children, observe m = none) :=
    filterMap_ahead (hpast c.node (List.mem_append_left _ c.node.self_mem_nodes))
  have hreverse (n : Node) (found : List β) :
      ((observe n).toList ++ found).reverse = found.reverse ++ (observe n).toList := by
    cases observe n <;> simp
  fun_induction walk enter observe found c with
  | case1 found c found' next hnext ih =>
    have hahead := ahead_eq enter c
    rw [hnext, Option.map_some, Option.getD_some] at hahead
    rw [ih fun n hn => hpast n (hahead ▸ List.mem_append_right _ hn), hstep hpast, hnext, hreverse,
      List.append_assoc]
    rfl
  | case2 found c found' hnext =>
    rw [hstep hpast, hnext, hreverse]
    simp

end

/-- Where a walk is after so many steps, unless it has left the tree before. -/
def after (enter : Node → Bool) : Nat → Cursor → Option Cursor
  | 0, c => some c
  | steps + 1, c => (c.next? enter).bind (after enter steps)

/-- A walk leaves the tree after at most as many steps as there are nodes ahead. -/
theorem after_eq_none {enter : Node → Bool} {steps : Nat} (h : c.sizeAhead ≤ steps) :
    c.after enter steps = none := by
  induction steps generalizing c with
  | zero =>
    have hpos := c.node.size_eq
    rw [sizeAhead] at h
    omega
  | succ steps ih =>
    cases hnext : c.next? enter with
    | none => rw [after, hnext, Option.bind_none]
    | some next =>
      have hlt := sizeAhead_of_next? hnext
      rw [after, hnext, Option.bind_some, ih (by omega)]

end Cursor

namespace Node

/-! ### Nodes with errors -/

theorem anyError_eq_true_iff {ns : List Node} :
    anyError ns = true ↔ ∃ n ∈ ns, n.hasError = true := by
  induction ns with
  | nil => simp [anyError]
  | cons n ns ih => simp [anyError, ih]

theorem hasError_eq_true_iff {n : Node} :
    n.hasError = true ↔
      n.label.faulty = true ∨ n.label.missing = true ∨ ∃ c ∈ n.children, c.hasError = true := by
  cases n with
  | mk label children =>
    simp only [hasError, Bool.or_eq_true, anyError_eq_true_iff, or_assoc]
    rfl

/-- A node has an error if one at or below it has. -/
theorem hasError_of_mem_nodes {m n : Node} (hm : m ∈ n.nodes) (h : m.hasError = true) :
    n.hasError = true := by
  induction n using childInduction with
  | node n ih =>
    rcases mem_nodes_iff.1 hm with rfl | ⟨c, hc, hm⟩
    · exact h
    · exact hasError_eq_true_iff.2 (.inr (.inr ⟨c, hc, ih c hc hm⟩))

/-- The node is an error, or was inserted to recover from one. -/
def isIssue (n : Node) : Bool := n.name == "ERROR" || n.label.missing

/-- Every error node of the tree has an error. -/
def ErrorsCount (root : Node) : Prop := ∀ n ∈ root.nodes, n.name = "ERROR" → n.hasError = true

instance (root : Node) : Decidable root.ErrorsCount :=
  inferInstanceAs (Decidable (∀ n ∈ root.nodes, n.name = "ERROR" → n.hasError = true))

theorem ErrorsCount.isIssue_eq_false {root n m : Node} (h : root.ErrorsCount) (hn : n ∈ root.nodes)
    (hclean : n.hasError = false) (hm : m ∈ n.nodes) : m.isIssue = false := by
  have hm' : m.hasError = false := by
    by_contra herror
    rw [hasError_of_mem_nodes hm (by simpa using herror)] at hclean
    cases hclean
  have hname : m.name ≠ "ERROR" := by
    intro hname
    rw [h m (mem_nodes_trans hm hn) hname] at hm'
    cases hm'
  have hmissing : m.label.missing = false := by
    by_contra hmissing
    rw [hasError_eq_true_iff.2 (.inr (.inl (by simpa using hmissing)))] at hm'
    cases hm'
  simp [isIssue, hname, hmissing]

end Node

/-! ### The issues of a tree -/

/-- The issue tells of the node: where it begins, and what is wrong with it. -/
structure Issue.IsOf (source : Bytes) (n : Node) (i : Issue) : Prop where
  line : i.line = source.rowAt n.start + 1
  column : i.column = source.columnAt n.start + 1
  severity : i.severity = .error
  message : i.message =
    if n.name = "ERROR" then "Syntax error near `" ++ Str.clip (n.text source) 40 ++ "`"
    else "Missing `" ++ n.name ++ "`"

namespace Node

theorem ownIssue?_of_isIssue (source : Bytes) {n : Node} (h : n.isIssue = true) :
    ∃ i, n.ownIssue? source = some i ∧ i.IsOf source n := by
  by_cases hname : n.name = "ERROR"
  · exact ⟨_, by rw [ownIssue?, if_pos (by simpa using hname)], rfl, rfl, rfl, (if_pos hname).symm⟩
  · have hmissing : n.label.missing = true := by simpa [isIssue, hname] using h
    exact ⟨_, by rw [ownIssue?, if_neg (by simpa using hname), if_pos hmissing], rfl, rfl, rfl,
      (if_neg hname).symm⟩

theorem ownIssue?_eq_none (source : Bytes) {n : Node} (h : n.isIssue = false) :
    n.ownIssue? source = none := by
  obtain ⟨hname, hmissing⟩ := Bool.or_eq_false_iff.1 h
  simp [ownIssue?, hname, hmissing]

theorem forall₂_filterMap_ownIssue? (source : Bytes) (ns : List Node) :
    List.Forall₂ (Issue.IsOf source) (ns.filter isIssue)
      (ns.filterMap (ownIssue? source)) := by
  induction ns with
  | nil => exact .nil
  | cons n ns ih =>
    by_cases h : n.isIssue = true
    · obtain ⟨i, hi, hof⟩ := ownIssue?_of_isIssue source h
      rw [List.filter_cons_of_pos h, List.filterMap_cons_some hi]
      exact .cons hof ih
    · rw [List.filter_cons_of_neg h,
        List.filterMap_cons_none (ownIssue?_eq_none source (by simpa using h))]
      exact ih

/-- The cursor misses nothing, because below a node without an error there is no issue. -/
theorem ErrorsCount.syntaxIssues_eq {root : Node} (h : root.ErrorsCount) (source : Bytes) :
    root.syntaxIssues source = root.nodes.filterMap (ownIssue? source) := by
  have hclean {n m : Node} (hn : n ∈ root.nodes) (herror : n.hasError = false) (hm : m ∈ n.nodes) :
      m.ownIssue? source = none :=
    ownIssue?_eq_none source (h.isIssue_eq_false hn herror hm)
  rw [syntaxIssues]
  split
  · rw [Cursor.walk_eq, Cursor.ahead_atRoot, List.reverse_nil, List.nil_append]
    intro n hn herror m hm
    rw [Cursor.ahead_atRoot] at hn
    exact hclean hn herror (n.nodes_eq ▸ List.mem_cons_of_mem n hm)
  · next herror =>
    symm
    exact List.filterMap_eq_nil_iff.2 fun m hm =>
      hclean root.self_mem_nodes (by simpa using herror) hm

/-- **Every syntax error is reported once.** For every tree in which each error node has an error:
the cursor leaves the tree after at most as many steps as the tree has nodes, and the issues that it
has collected by then are those of the error nodes and the inserted nodes of the whole tree, one for
each, from the top down and left to right. -/
theorem syntaxIssues_forall₂ {root : Node} (h : root.ErrorsCount) (source : Bytes) :
    (Cursor.atRoot root).after hasError root.size = none ∧
      List.Forall₂ (Issue.IsOf source) (root.nodes.filter isIssue)
        (root.syntaxIssues source) := by
  refine ⟨Cursor.after_eq_none le_rfl, ?_⟩
  rw [h.syntaxIssues_eq source]
  exact forall₂_filterMap_ownIssue? source root.nodes

/-- A class without its closing brace, in which a statement lacks its end and a sign stands
alone. -/
def brokenClass : Bytes := .ofString "using N;\nclass A \x7b f() \x7b x \x7d <\n"

def brokenClassTree : Node :=
  .mk { name := "compilation_unit", start := 0, stop := 31 } [
    .mk { name := "using_directive", start := 0, stop := 8 } [
      .mk { name := "identifier", start := 6, stop := 7 } []],
    .mk { name := "ERROR", start := 9, stop := 30, faulty := true } [
      .mk { name := "identifier", field := "name", start := 15, stop := 16 } [],
      .mk { name := "block", field := "body", start := 23, stop := 28 } [
        .mk { name := "expression_statement", start := 25, stop := 26 } [
          .mk { name := "identifier", start := 25, stop := 26 } [],
          .mk { name := ";", start := 26, stop := 26, named := false, missing := true } []]],
      .mk { name := "ERROR", start := 29, stop := 30, faulty := true } []]]

/-- An error inside an error, and an inserted semicolon between the two. -/
theorem syntaxIssues_forall₂_brokenClass :
    brokenClassTree.ErrorsCount ∧
      (brokenClassTree.syntaxIssues brokenClass).map (fun i => (i.line, i.column)) =
        [(2, 1), (2, 18), (2, 21)] ∧
      (Cursor.atRoot brokenClassTree).after hasError brokenClassTree.size = none ∧
      List.Forall₂ (Issue.IsOf brokenClass) (brokenClassTree.nodes.filter isIssue)
        (brokenClassTree.syntaxIssues brokenClass) := by
  have herrors : brokenClassTree.ErrorsCount := by decide +kernel
  exact ⟨herrors, by decide +kernel, syntaxIssues_forall₂ herrors brokenClass⟩

end Node

end SymbolAtlas
