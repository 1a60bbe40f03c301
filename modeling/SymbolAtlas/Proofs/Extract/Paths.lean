import Mathlib.Tactic
import SymbolAtlas.Proofs.Extract.Records
import SymbolAtlas.Proofs.Tree.Nodes

/-!
# The walk follows the ways down

A walk that enters and leaves namespaces, types and members says the same as the way down to each
place: whatever it visits, it comes back with the types and the member it had before, and with no
namespace more than the file-scoped ones (`Walk.surroundings_visit`). So at each site its
surroundings are those of the site, and what it records in the end is what is recorded at one site
after the other (`Walk.Collects.visit`).

With what is recorded at a single site this gives the names of all symbols and the callers of all
calls (`Walk.ofTree_followsPaths`).
-/

namespace SymbolAtlas

/-! ### The sites of a walk -/

namespace Site

mutual

/-- The sites that a walk comes to at and below a node, in order. -/
def reachedFrom (env : WalkEnv) (above : List (Nat × Node)) : Node → List Site
  | .mk label children =>
    let node := Node.mk label children
    { node, above } :: reachedIn env above node 0 children

/-- The sites that a walk comes to at and below the children of a node, from position `i` on. -/
def reachedIn (env : WalkEnv) (above : List (Nat × Node)) (parent : Node) (i : Nat) :
    List Node → List Site
  | [] => []
  | child :: rest =>
    (if parent.visits env i child then reachedFrom env ((i, parent) :: above) child else []) ++
      reachedIn env above parent (i + 1) rest

end

/-- The sites of a tree that a walk comes to, in order. -/
def reached (env : WalkEnv) (root : Node) : List Site := reachedFrom env [] root

theorem reachedFrom_eq (env : WalkEnv) (above : List (Nat × Node)) (n : Node) :
    reachedFrom env above n = { node := n, above } :: reachedIn env above n 0 n.children := by
  cases n
  rw [reachedFrom]
  rfl

/-- The symbols that are reported at a site. -/
def declarations (env : WalkEnv) (s : Site) : List Declaration :=
  (Surroundings.around env s.above).report env s.node (s.node.declares env)

/-- The call or creation that is reported at a site. -/
def uses (env : WalkEnv) (s : Site) : List Use := (Surroundings.around env s.above).uses env s

end Site

/-! ### Coming back -/

namespace Node

/-- The namespace that stays open behind a node. -/
def staysOpen (source : Bytes) (n : Node) : List String :=
  if n.kind == .fileScopedNamespace then (n.fieldText? source "name").toList else []

theorem staysOpen_of_ne {source : Bytes} {n : Node} (h : n.kind ≠ .fileScopedNamespace) :
    n.staysOpen source = [] := by
  simp [staysOpen, h]

/-- The namespaces left open by a visit: the node itself and its children may be file-scoped. -/
def leavesOpen (source : Bytes) (n : Node) : List String :=
  n.staysOpen source ++ Surroundings.fileScopedNames source n.children

/-- Only children of the node are file-scoped namespaces, and only if the walk passes through the
node. -/
structure FileScopedNear (env : WalkEnv) (n : Node) : Prop where
  below : ∀ c ∈ n.children, ∀ d ∈ c.children, d.LacksFileScoped
  top : n.role env = .plain ∨ ∀ c ∈ n.children, c.kind ≠ .fileScopedNamespace

end Node

namespace Surroundings

theorem fileScopedNames_singleton {source : Bytes} {n : Node} (h : n.label.named = true) :
    fileScopedNames source [n] = n.staysOpen source := by
  unfold fileScopedNames Node.staysOpen
  by_cases hkind : n.kind = .fileScopedNamespace
  · cases hname : n.fieldText? source "name" <;> simp [h, hkind, hname]
  · simp [hkind]

theorem fileScopedNames_of_not_named {source : Bytes} {n : Node} (h : ¬ n.label.named = true) :
    fileScopedNames source [n] = [] := by
  simp [fileScopedNames, h]

theorem fileScopedNames_of_ne {source : Bytes} {ns : List Node}
    (h : ∀ n ∈ ns, n.kind ≠ .fileScopedNamespace) : fileScopedNames source ns = [] := by
  rw [fileScopedNames, List.filter_eq_nil_iff.2, List.filterMap_nil]
  intro n hn
  simp [h n hn]

theorem fileScopedNames_cons (source : Bytes) (n : Node) (ns : List Node) :
    fileScopedNames source (n :: ns) =
      fileScopedNames source [n] ++ fileScopedNames source ns := by
  rw [fileScopedNames, fileScopedNames, fileScopedNames, ← List.filterMap_append,
    ← List.filter_append, List.singleton_append]

end Surroundings

namespace Node

variable {env : WalkEnv} {n c : Node}

theorem FileScopedNear.of_lacks (h : ∀ c ∈ n.children, c.LacksFileScoped) :
    n.FileScopedNear env where
  below c hc _ hd := (h c hc).of_mem_children hd
  top := .inr fun c hc => (h c hc).kind_ne

theorem FileScopedNear.child (h : n.FileScopedNear env) (hc : c ∈ n.children) :
    c.FileScopedNear env :=
  .of_lacks (h.below c hc)

theorem FileScopedNear.leavesOpen_child (h : n.FileScopedNear env) (hc : c ∈ n.children) :
    c.leavesOpen env.source = c.staysOpen env.source := by
  rw [leavesOpen, Surroundings.fileScopedNames_of_ne fun d hd => (h.below c hc d hd).kind_ne,
    List.append_nil]

theorem IsUnit.role_eq {root : Node} (h : root.IsUnit) (env : WalkEnv) :
    root.role env = .plain := by
  rcases h with hkind | hkind <;> simp [role, hkind]

theorem FileScopedOnTop.near {root : Node} (h : root.FileScopedOnTop) (hunit : root.IsUnit)
    (env : WalkEnv) (hn : n ∈ root.nodes) : n.FileScopedNear env := by
  rcases mem_nodes_iff.1 hn with rfl | ⟨c, hc, hn⟩
  · exact ⟨h, .inl (hunit.role_eq env)⟩
  · rcases mem_nodes_iff.1 hn with rfl | ⟨d, hd, hn⟩
    · exact .of_lacks (h n hc)
    · exact .of_lacks fun e he => ((h c hc d hd).of_mem_nodes hn).of_mem_children he

end Node

namespace Walk

open Surroundings

theorem visit_eq (env : WalkEnv) (above : List (Nat × Node)) (w : Walk) (n : Node) :
    visit env above w n =
      let entered := (w.noted env { node := n, above }).enter env n
      entered.leave (visitPicked env above n (n.visits env) entered.inside 0 n.children) := by
  cases n
  rw [visit, arrive_eq]
  rfl

section

variable {env : WalkEnv} {w : Walk} {n : Node}

theorem of_role_nameSpace {name : String} (h : n.role env = .nameSpace name) :
    n.kind.isNamespace = true ∧ n.fieldText? env.source "name" = some name := by
  unfold Node.role at h
  cases hkind : n.kind <;> simp only [hkind, reduceCtorEq] at h <;>
    cases hname : n.fieldText? env.source "name" <;> simp_all [Kind.isNamespace]
  all_goals split at h <;> cases h

theorem of_role_type {name : String} (h : n.role env = .type name) : n.kind.isType = true := by
  unfold Node.role at h
  cases hkind : n.kind <;> simp only [hkind, reduceCtorEq] at h <;>
    cases hname : n.fieldText? env.source "name" <;> simp_all [Kind.isType]
  all_goals split at h <;> cases h

theorem staysOpen_of_role (h : (n.role env).nameSpace? = none) :
    n.staysOpen env.source = [] := by
  unfold Node.staysOpen
  split
  · next hkind =>
    have hkind := beq_iff_eq.1 hkind
    rw [role_of_isNamespace (by rw [hkind]; rfl)] at h
    cases hname : n.fieldText? env.source "name" with
    | none => rfl
    | some name => simp [hname, Role.nameSpace?] at h
  · rfl

theorem leave_enter (after : Walk) :
    (w.enter env n).leave after = after.placed ((w.enter env n).leave after).surroundings := by
  simp only [enter]
  split
  · split <;> rfl
  all_goals rfl

/-- Leaving a node undoes what entering it has done, but for a file-scoped namespace. -/
theorem surroundings_leave {after : Walk} (h : after.surroundings = w.surroundings.enter env n) :
    ((w.enter env n).leave after).surroundings =
      w.surroundings.extend (n.staysOpen env.source) := by
  have hnamespaces := congrArg Surroundings.namespaces h
  have htypes := congrArg Surroundings.types h
  have hmember := congrArg Surroundings.member h
  simp only [surroundings, Surroundings.enter] at hnamespaces htypes hmember
  cases hrole : n.role env with
  | nameSpace name =>
    simp only [hrole] at hnamespaces htypes hmember
    obtain ⟨-, hname⟩ := of_role_nameSpace hrole
    by_cases hkind : n.kind = .fileScopedNamespace
    · simp [enter, hrole, hkind, Node.staysOpen, hname, surroundings, extend, hnamespaces, htypes,
        hmember]
    · simp [enter, hrole, hkind, Node.staysOpen, surroundings, extend, hnamespaces, htypes, hmember]
  | type name =>
    simp only [hrole] at hnamespaces htypes hmember
    rw [staysOpen_of_role (by rw [hrole]; rfl)]
    simp [enter, hrole, surroundings, hnamespaces, htypes]
  | member name | unowned | leaf | plain =>
    simp only [hrole] at hnamespaces htypes hmember
    rw [staysOpen_of_role (by rw [hrole]; rfl)]
    simp [enter, hrole, surroundings, hnamespaces, htypes, hmember]

/-- What a child leaves open, whether it is visited or not. -/
theorem surroundings_visited {c : Node} {x : Walk} {i : Nat}
    (hx : x.surroundings = w.surroundings.extend (c.staysOpen env.source))
    (h : n.role env = .plain ∨ c.kind ≠ .fileScopedNamespace) :
    (if n.visits env i c then x else w).surroundings =
      w.surroundings.extend (fileScopedNames env.source [c]) := by
  rcases h with hrole | hkind
  · rw [show n.visits env i c = c.label.named by rw [Node.visits, hrole]]
    split
    · next hnamed => rw [hx, fileScopedNames_singleton hnamed]
    · next hnamed => rw [fileScopedNames_of_not_named hnamed, extend_nil]
  · rw [Node.staysOpen_of_ne hkind] at hx
    rw [fileScopedNames_of_ne (by simpa using hkind)]
    split <;> simp [hx]

theorem surroundings_visitPicked {above : List (Nat × Node)} {picks : Nat → Node → Bool}
    {cs : List Node}
    (h : ∀ c ∈ cs, ∀ (i : Nat) (w : Walk),
      (if picks i c then visit env ((i, n) :: above) w c else w).surroundings =
        w.surroundings.extend (fileScopedNames env.source [c])) (w : Walk) (i : Nat) :
    (visitPicked env above n picks w i cs).surroundings =
      w.surroundings.extend (fileScopedNames env.source cs) := by
  induction cs generalizing w i with
  | nil => simp [visitPicked, fileScopedNames]
  | cons c cs ih =>
    rw [visitPicked, ih (fun d hd => h d (List.mem_cons_of_mem c hd)), h c List.mem_cons_self,
      ← extend_append, ← fileScopedNames_cons]

/-- A visit comes back to where it began, but for the file-scoped namespaces it has met. -/
theorem surroundings_visit (h : n.FileScopedNear env) (above : List (Nat × Node)) (w : Walk) :
    (visit env above w n).surroundings = w.surroundings.extend (n.leavesOpen env.source) := by
  induction n using Node.childInduction generalizing above w with
  | node n ih =>
    have hpicked (w : Walk) :
        (visitPicked env above n (n.visits env) w 0 n.children).surroundings =
          w.surroundings.extend (fileScopedNames env.source n.children) :=
      surroundings_visitPicked (fun c hc i w =>
        surroundings_visited (by rw [ih c hc (h.child hc), h.leavesOpen_child hc])
          (h.top.imp_right fun htop => htop c hc)) w 0
    have hnoted := surroundings_noted env w { node := n, above }
    rw [visit_eq]
    -- Either nothing is entered and the children may leave namespaces open, or they leave none.
    rcases h.top with hrole | hchildren
    · rw [enter_of_plain hrole, Node.leavesOpen,
        staysOpen_of_role (by rw [hrole]; rfl), List.nil_append, ← hnoted]
      exact hpicked _
    · rw [Node.leavesOpen, fileScopedNames_of_ne hchildren, List.append_nil, ← hnoted]
      apply surroundings_leave
      rw [hpicked, fileScopedNames_of_ne hchildren, extend_nil]
      rfl

end

/-! ### What is recorded in the end -/

/-- At each site a walk adds what is found there, if it knows the surroundings of the site. -/
structure Collects {β : Type} (env : WalkEnv) (observe : Walk → List β) (found : Site → List β) :
    Prop where
  placed : ∀ (w : Walk) (s : Surroundings), observe (w.placed s) = observe w
  noted : ∀ (w : Walk) (site : Site), w.surroundings = around env site.above →
    observe (w.noted env site) = observe w ++ found site

theorem collects_declarations (env : WalkEnv) :
    Collects env declarations (Site.declarations env) where
  placed := declarations_placed
  noted w site h := by rw [declarations_noted, h]; rfl

theorem collects_uses (env : WalkEnv) : Collects env uses (Site.uses env) where
  placed := uses_placed
  noted w site h := by rw [uses_noted, h]; rfl

namespace Collects

variable {β : Type} {env : WalkEnv} {observe : Walk → List β} {found : Site → List β}

theorem visitPicked (n : Node) (above : List (Nat × Node))
    (hvisit : ∀ c ∈ n.children, ∀ (i : Nat) (w : Walk),
      w.surroundings = around env ((i, n) :: above) →
      observe (visit env ((i, n) :: above) w c) =
        observe w ++ (Site.reachedFrom env ((i, n) :: above) c).flatMap found)
    (hafter : ∀ (i : Nat) (c : Node), n.children[i]? = some c → ∀ w : Walk,
      w.surroundings = around env ((i, n) :: above) →
      (if n.visits env i c then visit env ((i, n) :: above) w c else w).surroundings =
        around env ((i + 1, n) :: above))
    (cs : List Node) (i : Nat) (hcs : n.children.drop i = cs) (w : Walk)
    (hw : w.surroundings = around env ((i, n) :: above)) :
    observe (visitPicked env above n (n.visits env) w i cs) =
      observe w ++ (Site.reachedIn env above n i cs).flatMap found := by
  -- The invariant is that the walk has the surroundings of the place it comes to next.
  induction cs generalizing i w with
  | nil => simp [Walk.visitPicked, Site.reachedIn]
  | cons c cs ih =>
    obtain ⟨hc, hrest⟩ := Node.children_of_drop hcs
    rw [Walk.visitPicked, Site.reachedIn, ih (i + 1) hrest _ (hafter i c hc w hw),
      List.flatMap_append, ← List.append_assoc]
    congr 1
    split
    · exact hvisit c (List.mem_of_getElem? hc) i w hw
    · simp

/-- Started with the surroundings of its place, a walk adds what is found at the sites it comes to,
one after the other. -/
theorem visit (hcollects : Collects env observe found) {n : Node} (h : n.FileScopedNear env)
    {above : List (Nat × Node)}
    (htop : above = [] ∨ ∀ c ∈ n.children, c.kind ≠ .fileScopedNamespace) {w : Walk}
    (hw : w.surroundings = around env above) :
    observe (Walk.visit env above w n) =
      observe w ++ (Site.reachedFrom env above n).flatMap found := by
  induction n using Node.childInduction generalizing above w with
  | node n ih =>
    rw [visit_eq, leave_enter, hcollects.placed, Site.reachedFrom_eq, List.flatMap_cons,
      ← List.append_assoc, ← hcollects.noted w { node := n, above } hw]
    refine (@visitPicked β env observe found n above ?_ ?_ n.children 0 rfl _ ?_).trans ?_
    · intro c hc i w hw
      exact ih c hc (h.child hc) (.inr fun d hd => (h.below c hc d hd).kind_ne) hw
    · intro i c hc w hw
      have hmem := List.mem_of_getElem? hc
      rw [around_succ hc, ← hw]
      · exact surroundings_visited
          (by rw [surroundings_visit (h.child hmem), h.leavesOpen_child hmem])
          (h.top.imp_right fun htop => htop c hmem)
      · rcases h.top with hrole | hchildren
        · exact htop.imp (⟨·, hrole⟩) (· c hmem)
        · exact .inr (hchildren c hmem)
    · rw [around_zero, ← hw]
      rfl
    · rw [show ((w.noted env { node := n, above }).enter env n).inside =
        (w.noted env { node := n, above }).placed _ from rfl, hcollects.placed]

end Collects

theorem map_declaration_symbols (source : Bytes) (options : ExtractOptions) {root : Node}
    (hunit : root.IsUnit) (h : root.FileScopedOnTop) :
    (Findings.ofTree source options root).symbols.map Symbol.declaration =
      (Site.reached (envOf source options root) root).flatMap
        (·.declarations (envOf source options root)) :=
  (collects_declarations _).visit (h.near hunit _ root.self_mem_nodes) (.inl rfl) (w := {}) rfl

/-- A walk over a tree says what the ways down to its places say. -/
structure FollowsPaths (source : Bytes) (options : ExtractOptions) (root : Node) : Prop where
  /-- A visit leaves the types and the member as they were, and adds to the namespaces only those
  that are file-scoped. -/
  restored : ∀ n ∈ root.nodes, ∀ (above : List (Nat × Node)) (w : Walk),
    let after := visit (envOf source options root) above w n
    after.types = w.types ∧ after.member = w.member ∧
      after.namespaces = w.namespaces ++ n.leavesOpen source
  /-- Symbols are reported site by site, under names that begin with what surrounds the site. -/
  symbols : (Findings.ofTree source options root).symbols.map Symbol.declaration =
    (Site.reached (envOf source options root) root).flatMap
      (·.declarations (envOf source options root))
  /-- Nothing in a prelude is reported. -/
  prelude : ∀ site ∈ Site.reached (envOf source options root) root,
    site.node.start < options.preludeSize → site.declarations (envOf source options root) = []
  /-- Calls and creations are reported site by site, as made by the member around the site, or else
  by the innermost of its namespaces and types. -/
  uses : (ofTree source options root).uses =
    (Site.reached (envOf source options root) root).flatMap (·.uses (envOf source options root))

/-- What a walk over a whole tree reports can be read off the way down to each node. -/
theorem ofTree_followsPaths (source : Bytes) (options : ExtractOptions) {root : Node}
    (hunit : root.IsUnit) (h : root.FileScopedOnTop) : FollowsPaths source options root where
  restored n hn above w := by
    have hvisit := surroundings_visit (h.near hunit (envOf source options root) hn) above w
    exact ⟨congrArg Surroundings.types hvisit, congrArg Surroundings.member hvisit,
      congrArg Surroundings.namespaces hvisit⟩
  symbols := map_declaration_symbols source options hunit h
  prelude site _ hstart := by
    have hprelude : isPrelude (envOf source options root) site.node = true := decide_eq_true hstart
    rw [Site.declarations, Surroundings.report, if_pos hprelude]
  uses := (collects_uses _).visit (h.near hunit _ root.self_mem_nodes) (.inl rfl) (w := {}) rfl

/-- The members of a class behind the prelude that opens it again, with a call in each. -/
def callsBehindPrelude : Bytes :=
  .ofString "namespace A; class B \x7b\nint x = H(); void F() \x7b G(); \x7d \x7d"

/-- The tree of `callsBehindPrelude`. -/
def callsBehindPreludeTree : Node :=
  .mk { name := "compilation_unit", start := 0, stop := 55 } [
    .mk { name := "file_scoped_namespace_declaration", start := 0, stop := 12 } [
      identifier "name" 10],
    .mk { name := "class_declaration", start := 13, stop := 55 } [
      identifier "name" 19,
      .mk { name := "declaration_list", field := "body", start := 21, stop := 55 } [
        .mk { name := "field_declaration", start := 23, stop := 35 } [
          .mk { name := "variable_declaration", start := 23, stop := 34 } [
            .mk { name := "predefined_type", field := "type", start := 23, stop := 26 } [],
            .mk { name := "variable_declarator", start := 27, stop := 34 } [
              identifier "name" 27,
              call 31]]],
        .mk { name := "method_declaration", start := 36, stop := 53 } [
          .mk { name := "predefined_type", field := "returns", start := 36, stop := 40 } [],
          identifier "name" 41,
          .mk { name := "parameter_list", field := "parameters", start := 42, stop := 44 } [],
          .mk { name := "block", field := "body", start := 45, stop := 53 } [
            .mk { name := "expression_statement", start := 47, stop := 51 } [
              call 47]]]]]]
where
  /-- A name of one letter. -/
  identifier (field : String) (start : Nat) : Node :=
    .mk { name := "identifier", field, start, stop := start + 1 } []
  /-- A call without arguments. -/
  call (start : Nat) : Node :=
    .mk { name := "invocation_expression", start, stop := start + 3 } [
      identifier "function" start,
      .mk { name := "argument_list", field := "arguments", start := start + 1, stop := start + 3 }
        []]

/-- Of `callsBehindPrelude` only the members are reported, under the names they have in the file.
The call in the field is made by the class, that in the method by the method. -/
theorem ofTree_followsPaths_callsBehindPrelude :
    callsBehindPreludeTree.IsUnit ∧ callsBehindPreludeTree.FileScopedOnTop ∧
      (Findings.ofTree callsBehindPrelude { preludeSize := 23 } callsBehindPreludeTree).symbols.map
        Symbol.declaration = [⟨"x", "A.B.x", .field, 2, 2⟩, ⟨"F", "A.B.F", .method, 2, 2⟩] ∧
      (ofTree callsBehindPrelude { preludeSize := 23 } callsBehindPreludeTree).uses =
        [⟨"A.B", .calls, 2⟩, ⟨"A.B.F", .calls, 2⟩] := by
  have hunit : callsBehindPreludeTree.IsUnit := .inl (by decide +kernel)
  have htop : callsBehindPreludeTree.FileScopedOnTop := by
    unfold Node.FileScopedOnTop Node.LacksFileScoped
    decide +kernel
  have hpaths := ofTree_followsPaths callsBehindPrelude { preludeSize := 23 } hunit htop
  refine ⟨hunit, htop, ?_, ?_⟩
  · rw [hpaths.symbols]
    decide +kernel
  · rw [hpaths.uses]
    decide +kernel

end Walk

end SymbolAtlas
