import Mathlib.Tactic
import SymbolAtlas.Proofs.Scope.Descent
import SymbolAtlas.Proofs.Scope.Nesting

/-!
# The scopes of a tree are nested

If the bytes of a tree are nested as a grammar nests them (`Node.WellNested`), then so are the
scopes of its outline: those of a member (`nested_memberScopes`), those at and below a node
(`nested_scopesAt`), and behind a file-scoped namespace all the rest of the text
(`nested_fileScoped`). So a context taken from a tree names the innermost namespace or type around
its place (`Outline.ofTree_situates`).
-/

namespace SymbolAtlas

/-- Declarations that may open a scope. -/
def Kind.opensScope (k : Kind) : Bool :=
  k.isNamespace || k.isType || k.isMember || k == .eventDeclaration

namespace Node

/-- Parts of a declaration that stand for its body. -/
def isBody (n : Node) : Bool :=
  n.label.field == "body" ||
    ["block", "accessor_list", "declaration_list", "enum_member_declaration_list"].contains n.name

theorem isBody_of_body? {n b : Node} (h : n.body? = some b) : b.isBody = true := by
  rcases Option.or_eq_some_iff.1 h with h | ⟨-, h⟩
  · have hfield : b.label.field = "body" := by simpa using List.find?_some h
    simp [isBody, hfield]
  · have hname := List.find?_some h
    simp only [Bool.and_eq_true, List.contains_eq_mem, decide_eq_true_eq, List.mem_cons,
      List.not_mem_nil, or_false] at hname
    rcases hname with ⟨-, hname | hname⟩ <;> simp [isBody, hname]

/-- The bytes of a tree are nested as the grammar nests them. -/
structure WellNested (n : Node) : Prop where
  /-- Children lie inside their parents. -/
  inside : ∀ m ∈ n.nodes, ∀ c ∈ m.children,
    m.start ≤ c.start ∧ c.start ≤ c.stop ∧ c.stop ≤ m.stop
  /-- Siblings follow each other. -/
  ordered : ∀ m ∈ n.nodes, m.children.Pairwise fun a b => a.stop ≤ b.start
  /-- Bodies are not empty. -/
  body : ∀ m ∈ n.nodes, m.isBody = true → m.start < m.stop
  /-- The name of a file-scoped namespace stands before all that is declared inside. -/
  name : ∀ m ∈ n.nodes, m.kind = .fileScopedNamespace → ∀ name ∈ m.field? "name",
    ∀ c ∈ m.children, ∀ d ∈ c.nodes, d.kind.opensScope = true → name.stop ≤ d.start

namespace WellNested

variable {n m c : Node}

theorem of_mem_nodes (h : n.WellNested) (hm : m ∈ n.nodes) : m.WellNested where
  inside k hk := h.inside k (mem_nodes_trans hk hm)
  ordered k hk := h.ordered k (mem_nodes_trans hk hm)
  body k hk := h.body k (mem_nodes_trans hk hm)
  name k hk := h.name k (mem_nodes_trans hk hm)

theorem child (h : n.WellNested) (hc : c ∈ n.children) : c.WellNested :=
  h.of_mem_nodes (child_mem_nodes hc)

theorem inOrder (h : n.WellNested) : n.InOrder := ⟨h.inside, h.ordered⟩

theorem start_le (h : n.WellNested) (hm : m ∈ n.nodes) : n.start ≤ m.start := h.inOrder.start_le hm

theorem stop_le (h : n.WellNested) (hm : m ∈ n.nodes) : m.stop ≤ n.stop := h.inOrder.stop_le hm

end WellNested

end Node

namespace Outline

variable {source : Bytes} {path : List String} {outer : ScopeKind} {lo hi : Nat} {n : Node}

/-! ### Members -/

theorem nested_accessors {accessors : List Node} (hwell : ∀ a ∈ accessors, a.WellNested)
    (horder : accessors.Pairwise fun a b => a.stop ≤ b.start)
    (hlo : ∀ a ∈ accessors, lo ≤ a.start) (hhi : ∀ a ∈ accessors, a.stop ≤ hi) :
    Nested .member path lo hi (accessors.filterMap (accessorScope? source path)) := by
  induction accessors generalizing lo with
  | nil => exact .nil
  | cons a accessors ih =>
    obtain ⟨hafter, horder⟩ := List.pairwise_cons.1 horder
    have hwell' b (hb : b ∈ accessors) := hwell b (List.mem_cons_of_mem a hb)
    have hhi' b (hb : b ∈ accessors) := hhi b (List.mem_cons_of_mem a hb)
    cases hscope : accessorScope? source path a with
    | none =>
      rw [List.filterMap_cons_none hscope]
      exact ih hwell' horder (fun b hb => hlo b (List.mem_cons_of_mem a hb)) hhi'
    | some s =>
      rw [List.filterMap_cons_some hscope]
      simp only [accessorScope?, Option.bind_eq_bind, Option.bind_eq_some_iff,
        Option.some.injEq] at hscope
      obtain ⟨block, hblock, word, -, rfl⟩ := hscope
      have ha := hwell a List.mem_cons_self
      have hmem : block ∈ a.children := List.mem_of_find?_eq_some hblock
      have hname : block.name = "block" := by simpa using List.find?_some hblock
      have hnonempty : block.start < block.stop :=
        ha.body block (Node.child_mem_nodes hmem) (by simp [Node.isBody, hname])
      have hstart := ha.start_le (Node.child_mem_nodes hmem)
      have hstop := ha.stop_le (Node.child_mem_nodes hmem)
      have hlo := hlo a List.mem_cons_self
      have hhi := hhi a List.mem_cons_self
      change Nested _ _ _ _ (_ :: ([] ++ _))
      refine .cons ?_ rfl .nil ?_
      · constructor <;> simp only [memberScope, ScopeKind.admits, beq_self_eq_true] <;> omega
      · refine (ih hwell' horder hafter hhi').mono ?_ le_rfl
        simp only [memberScope]
        omega

theorem of_memberBody? {b : Node} (h : memberBody? n = some b) :
    b ∈ n.children ∧ b.isBody = true := by
  obtain ⟨h, hname⟩ := Option.filter_eq_some_iff.1 h
  constructor
  · rcases Option.or_eq_some_iff.1 h with h | ⟨-, h⟩
    · rcases Option.or_eq_some_iff.1 h with h | ⟨-, h⟩ <;> exact List.mem_of_find?_eq_some h
    · exact List.mem_of_find?_eq_some h
  · simp only [List.contains_eq_mem, decide_eq_true_eq, List.mem_cons, List.not_mem_nil,
      or_false] at hname
    rcases hname with hname | hname <;> simp [Node.isBody, hname]

theorem nested_memberScopes (hwell : n.WellNested) (houter : outer.admits .member = true)
    (hlo : lo ≤ n.start) (hhi : n.stop ≤ hi) :
    Nested outer path lo hi (memberScopes source path n) := by
  simp only [memberScopes]
  generalize (if n.kind == .indexerDeclaration then some "this"
    else (n.field? "name").map fun c => Str.trim (c.text source)) = name?
  cases name? with
  | none => exact .nil
  | some name =>
    cases hbody : memberBody? n with
    | none => exact .nil
    | some b =>
      obtain ⟨hmem, hisBody⟩ := of_memberBody? hbody
      have hb := hwell.child hmem
      have hnonempty := hb.body b b.self_mem_nodes hisBody
      have hstart := hwell.start_le (Node.child_mem_nodes hmem)
      have hstop := hwell.stop_le (Node.child_mem_nodes hmem)
      refine .singleton ?_ rfl ?_
      · constructor <;> simp only [memberScope, houter] <;> omega
      · have haccessors : Nested .member (path ++ [name]) b.start b.stop
            (b.namedChildren.filterMap (accessorScope? source (path ++ [name]))) := by
          have hsub : ∀ a ∈ b.namedChildren, a ∈ b.children := fun a ha => List.mem_of_mem_filter ha
          exact nested_accessors (fun a ha => hb.child (hsub a ha))
            ((hb.ordered b b.self_mem_nodes).filter _)
            (fun a ha => hb.start_le (Node.child_mem_nodes (hsub a ha)))
            (fun a ha => hb.stop_le (Node.child_mem_nodes (hsub a ha)))
        simp only [memberScope]
        split
        · exact haccessors.mono (by omega) (by omega)
        · exact .nil

/-! ### Namespaces and types -/

/-- No declaration at or below the node begins before the offset. -/
def DeclaresFrom (lo : Nat) (n : Node) : Prop :=
  ∀ d ∈ n.nodes, d.kind.opensScope = true → lo ≤ d.start

theorem declaresFrom_start (h : n.WellNested) (hlo : lo ≤ n.start) : DeclaresFrom lo n :=
  fun _ hd _ => hlo.trans (h.start_le hd)

/-- The node may stand in a scope: no namespace in a type. -/
def MayStandIn (outer : ScopeKind) (n : Node) : Prop :=
  outer = .nameSpace ∨ outer = .type ∧ ∀ m ∈ n.nodes, m.kind.isNamespace = false

theorem nested_scopesAmong {ns : List Node}
    (hat : ∀ n ∈ ns, ∀ lo hi, DeclaresFrom lo n → lo ≤ hi → n.stop ≤ hi →
      Nested outer path lo hi (scopesAt source path n).1)
    (hkind : ∀ n ∈ ns, n.kind ≠ .fileScopedNamespace)
    (hwell : ∀ n ∈ ns, n.WellNested) (horder : ns.Pairwise fun a b => a.stop ≤ b.start)
    (hlo : ∀ n ∈ ns, DeclaresFrom lo n) (hle : lo ≤ hi) (hhi : ∀ n ∈ ns, n.stop ≤ hi) :
    Nested outer path lo hi (scopesAmong source path ns) := by
  induction ns generalizing lo with
  | nil => exact .nil
  | cons n ns ih =>
    obtain ⟨hafter, horder⟩ := List.pairwise_cons.1 horder
    have hn : n ∈ n :: ns := List.mem_cons_self
    have hns m (hm : m ∈ ns) := List.mem_cons_of_mem n hm
    have hstop := hhi n hn
    have hhere := hat n hn lo (max lo n.stop) (hlo n hn) (by omega) (by omega)
    rw [scopesAmong]
    dsimp only
    rw [snd_scopesAt_of_ne (hkind n hn)]
    refine hhere.append (ih (fun m hm => hat m (hns m hm)) (fun m hm => hkind m (hns m hm))
      (fun m hm => hwell m (hns m hm)) horder (fun m hm d hd hopens => ?_) (by omega)
      (fun m hm => hhi m (hns m hm))) (by omega) (by omega)
    have := hlo m (hns m hm) d hd hopens
    have := hafter m hm
    have := (hwell m (hns m hm)).start_le hd
    omega

theorem nested_children (hwell : n.WellNested)
    (hat : ∀ c ∈ n.children, ∀ lo hi, DeclaresFrom lo c → lo ≤ hi → c.stop ≤ hi →
      Nested outer path lo hi (scopesAt source path c).1)
    (hlacks : n.LacksFileScoped) (hlo : ∀ c ∈ n.children, DeclaresFrom lo c) (hle : lo ≤ hi)
    (hhi : n.stop ≤ hi) : Nested outer path lo hi (scopesAmong source path n.children) :=
  nested_scopesAmong hat (fun _ hc => (hlacks.of_mem_children hc).kind_ne)
    (fun _ hc => hwell.child hc) (hwell.ordered n n.self_mem_nodes) hlo hle
    (fun _ hc => (hwell.stop_le (Node.child_mem_nodes hc)).trans hhi)

/-- What is known of every node of a tree. -/
structure Regular (source : Bytes) (n : Node) : Prop where
  wellNested : n.WellNested
  noNamespaceInType : n.NoNamespaceInType
  size : n.stop ≤ source.length

theorem Regular.of_mem_nodes {m : Node} (h : Regular source n) (hm : m ∈ n.nodes) :
    Regular source m where
  wellNested := h.wellNested.of_mem_nodes hm
  noNamespaceInType := h.noNamespaceInType.of_mem_nodes hm
  size := (h.wellNested.stop_le hm).trans h.size

theorem MayStandIn.below {c : Node} (h : MayStandIn outer n) (hc : c ∈ n.children) :
    MayStandIn outer c :=
  h.imp_right fun ⟨houter, hnone⟩ =>
    ⟨houter, fun m hm => hnone m (Node.mem_nodes_of_mem_children hc hm)⟩

theorem mayStandIn_of_opensContainer {s : Scope} {c m : Node} (htypes : n.NoNamespaceInType)
    (hkind : (n.kind.isNamespace || n.kind.isType) = true) (hs : OpensContainer source path n s)
    (hc : c ∈ n.children) (hm : m ∈ c.nodes) : MayStandIn s.kind m := by
  rw [hs.kind]
  split
  · exact .inl rfl
  · next hnot =>
    have htype : n.kind.isType = true := by simpa [hnot] using hkind
    refine .inr ⟨rfl, fun k hk => ?_⟩
    exact htypes n n.self_mem_nodes htype c hc k (Node.mem_nodes_trans hk hm)

theorem admits_of_opensContainer {s : Scope} (h : MayStandIn outer n)
    (hs : OpensContainer source path n s) : outer.admits s.kind = true := by
  rw [hs.kind]
  rcases h with rfl | ⟨rfl, hnone⟩
  · rfl
  · rw [hnone n n.self_mem_nodes]
    rfl

/-- A scope that is no file-scoped namespace goes from brace to brace. -/
theorem braces_of_opensContainer {s : Scope} (h : Regular source n)
    (hkind : n.kind ≠ .fileScopedNamespace) (hs : OpensContainer source path n s) :
    ∃ b, n.body? = some b ∧ b.start < b.stop ∧
      s.openByte = b.start + 1 ∧ s.closeByte + 1 = b.stop := by
  obtain ⟨b, hbody, hopen, hclose⟩ := hs.body_bytes hkind
  have hmem := Node.child_mem_nodes (Node.mem_children_of_body? hbody)
  have hnonempty := h.wellNested.body b hmem (Node.isBody_of_body? hbody)
  have hstop := h.wellNested.stop_le hmem
  have hsize := h.size
  exact ⟨b, hbody, hnonempty, hopen, by omega⟩

/-- The scopes at and below a node without file-scoped namespaces are nested. -/
theorem nested_scopesAt (h : Regular source n) (hlacks : n.LacksFileScoped)
    (houter : MayStandIn outer n) (hlo : DeclaresFrom lo n) (hle : lo ≤ hi) (hhi : n.stop ≤ hi) :
    Nested outer path lo hi (scopesAt source path n).1 := by
  induction n using Node.belowInduction generalizing path outer lo hi with
  | node n ih =>
    have hwell := h.wellNested
    have hcase := scopesAt_spec source path n
    generalize scopesAt source path n = result at hcase
    cases hcase with
    | nothing => exact .nil
    | member hkind =>
      have houter : outer.admits .member = true := by rcases houter with rfl | ⟨rfl, -⟩ <;> rfl
      refine nested_memberScopes hwell houter (hlo n n.self_mem_nodes ?_) hhi
      rw [Kind.opensScope, Bool.or_assoc, hkind, Bool.or_true]
    | @container s hnamed hkind hs =>
      obtain ⟨b, hbody, hnonempty, hopen, hclose⟩ := braces_of_opensContainer h hlacks.kind_ne hs
      have hmem := Node.mem_children_of_body? hbody
      have hb := hwell.child hmem
      have hstart := hwell.start_le (Node.child_mem_nodes hmem)
      have hstop := hwell.stop_le (Node.child_mem_nodes hmem)
      have hfits : s.Fits outer lo hi := by
        refine ⟨admits_of_opensContainer houter hs, ?_, ?_, ?_, ?_⟩
        · rw [hs.startByte]
          exact hlo n n.self_mem_nodes (by rw [Kind.opensScope, hkind]; rfl)
        · rw [hs.startByte]
          omega
        · omega
        · omega
      -- Inside, everything begins behind the opening brace, which is where the body starts.
      have hinner : Nested s.kind (path ++ [s.name]) b.start b.stop
          (scopesAmong source (path ++ [s.name]) b.children) := by
        refine nested_children hb (fun c hc lo hi hlo hle hhi => ?_) (hlacks.of_mem_children hmem)
          (fun c hc => declaresFrom_start (hb.child hc) (hb.start_le (Node.child_mem_nodes hc)))
          hnonempty.le le_rfl
        have hbelow := Node.child_mem_nodes hc
        have hdown := Node.mem_nodes_of_mem_children hmem hbelow
        exact ih b hmem c hbelow (h.of_mem_nodes hdown) (hlacks.of_mem_nodes hdown)
          (mayStandIn_of_opensContainer h.noNamespaceInType hkind hs hmem hbelow) hlo hle hhi
      rw [Node.held_of_body? hbody]
      exact .singleton hfits hs.qualifiedName (hinner.mono (by omega) (by omega))
    | transparent hnamed hkind =>
      refine nested_children hwell (fun c hc lo hi hlo hle hhi => ?_) hlacks
        (fun c hc d hd => hlo d (Node.mem_nodes_of_mem_children hc hd)) hle hhi
      exact ih c hc c c.self_mem_nodes (h.of_mem_nodes (Node.child_mem_nodes hc))
        (hlacks.of_mem_children hc) (houter.below hc) hlo hle hhi

/-! ### Whole trees -/

theorem pairwise_held (h : n.WellNested) : n.held.Pairwise fun a b => a.stop ≤ b.start := by
  cases hbody : n.body? with
  | none =>
    rw [Node.held, hbody]
    exact h.ordered n n.self_mem_nodes
  | some b =>
    rw [Node.held_of_body? hbody]
    exact h.ordered b (Node.child_mem_nodes (Node.mem_children_of_body? hbody))

/-- What a file-scoped namespace holds itself is nested behind its name. -/
theorem nested_held {name : Node} (h : Regular source n)
    (hbelow : ∀ c ∈ n.children, c.LacksFileScoped) (hkind : n.kind = .fileScopedNamespace)
    (hname : n.field? "name" = some name) :
    Nested .nameSpace path (name.stop - 1) n.stop (scopesAmong source path n.held) := by
  have hmem : name ∈ n.nodes := Node.child_mem_nodes (List.mem_of_find?_eq_some hname)
  have hheld m (hm : m ∈ n.held) : Regular source m ∧ m.LacksFileScoped := by
    obtain ⟨c, hc, hm⟩ := Node.below_of_mem_held hm
    exact ⟨h.of_mem_nodes (Node.mem_nodes_of_mem_children hc hm), (hbelow c hc).of_mem_nodes hm⟩
  refine nested_scopesAmong
    (fun m hm lo hi => nested_scopesAt (hheld m hm).1 (hheld m hm).2 (.inl rfl))
    (fun m hm => (hheld m hm).2.kind_ne) (fun m hm => (hheld m hm).1.wellNested)
    (pairwise_held h.wellNested) (fun m hm d hd hopens => ?_)
    ((Nat.sub_le _ _).trans (h.wellNested.stop_le hmem)) (fun m hm => ?_)
  · obtain ⟨c, hc, hm⟩ := Node.below_of_mem_held hm
    have := h.wellNested.name n n.self_mem_nodes hkind name hname c hc d
      (Node.mem_nodes_trans hd hm) hopens
    omega
  · obtain ⟨c, hc, hm⟩ := Node.below_of_mem_held hm
    exact h.wellNested.stop_le (Node.mem_nodes_of_mem_children hc hm)

/-- All that follows a file-scoped namespace lies inside of it. -/
theorem nested_fileScoped {s : Scope} {rest : List Scope} (h : Regular source n)
    (hbelow : ∀ c ∈ n.children, c.LacksFileScoped) (hkind : n.kind = .fileScopedNamespace)
    (hs : OpensContainer source path n s) (hlo : DeclaresFrom lo n)
    (hrest : Nested .nameSpace (path ++ [s.name]) n.stop (source.length + 1) rest) :
    Nested .nameSpace path lo (source.length + 1)
      (s :: (scopesAmong source (path ++ [s.name]) n.held ++ rest)) := by
  obtain ⟨name, hname, hnonempty, hopen, hclose⟩ := hs.fileScoped_bytes hkind
  have hmem : name ∈ n.nodes := Node.child_mem_nodes (List.mem_of_find?_eq_some hname)
  have hstart := h.wellNested.start_le hmem
  have hstop := h.wellNested.stop_le hmem
  have hsize := h.size
  have hspace : s.kind = .nameSpace := by simp [hs.kind, hkind, Kind.isNamespace]
  have hfits : s.Fits .nameSpace lo (source.length + 1) := by
    refine ⟨rfl, ?_, ?_, ?_, ?_⟩
    · rw [hs.startByte]
      exact hlo n n.self_mem_nodes (by simp [hkind, Kind.opensScope, Kind.isNamespace])
    · rw [hs.startByte]
      omega
    · omega
    · omega
  refine .singleton hfits hs.qualifiedName ?_
  rw [hspace, hopen, hclose]
  exact (nested_held h hbelow hkind hname).append hrest (by omega) (by omega)

/-- The children of the root are nested to the end of the text. -/
theorem nested_scopesAmong_top {ns : List Node} (h : ∀ n ∈ ns, Regular source n)
    (hbelow : ∀ n ∈ ns, ∀ c ∈ n.children, c.LacksFileScoped)
    (horder : ns.Pairwise fun a b => a.stop ≤ b.start) (hlo : ∀ n ∈ ns, DeclaresFrom lo n)
    (hle : lo ≤ source.length + 1) :
    Nested .nameSpace path lo (source.length + 1) (scopesAmong source path ns) := by
  induction ns generalizing lo path with
  | nil => exact .nil
  | cons n ns ih =>
    obtain ⟨hafter, horder⟩ := List.pairwise_cons.1 horder
    have hn := h n List.mem_cons_self
    have hsize := hn.size
    have hns m (hm : m ∈ ns) := h m (List.mem_cons_of_mem n hm)
    have hlacks := hbelow n List.mem_cons_self
    have hbelow' m (hm : m ∈ ns) := hbelow m (List.mem_cons_of_mem n hm)
    have hlo' m (hm : m ∈ ns) := hlo m (List.mem_cons_of_mem n hm)
    have hbehind m (hm : m ∈ ns) : DeclaresFrom n.stop m :=
      declaresFrom_start (hns m hm).wellNested (hafter m hm)
    rw [scopesAmong]
    dsimp only
    by_cases hkind : n.kind = .fileScopedNamespace
    · have hcase := scopesAt_spec source path n
      generalize scopesAt source path n = result at hcase
      cases hcase with
      | nothing => exact ih hns hbelow' horder hlo' hle
      | member hmember => simp [hkind, Kind.isMember] at hmember
      | transparent hnamed htransparent => simp [hkind, isTransparent] at htransparent
      | container hnamed hcontainer hs =>
        -- The names around grow by the namespace, for all that follows.
        have hfile := hs.fileScoped
        rw [hkind, beq_self_eq_true] at hfile
        rw [hfile]
        exact nested_fileScoped hn hlacks hkind hs (hlo n List.mem_cons_self)
          (ih hns hbelow' horder hbehind (by omega))
    · have hhere : Nested .nameSpace path lo (max lo n.stop) (scopesAt source path n).1 :=
        nested_scopesAt hn (.of_children hkind hlacks) (.inl rfl) (hlo n List.mem_cons_self)
          (by omega) (by omega)
      have hrest : Nested .nameSpace path (max lo n.stop) (source.length + 1)
          (scopesAmong source path ns) := by
        refine ih hns hbelow' horder (fun m hm d hd hopens => ?_) (by omega)
        exact max_le (hlo' m hm d hd hopens) (hbehind m hm d hd hopens)
      rw [snd_scopesAt_of_ne hkind]
      exact hhere.append hrest (by omega) (by omega)

/-- In a tree whose bytes are nested, the context of every offset lists the scopes around it from
outside to inside, and names the innermost namespace or type among them. -/
theorem ofTree_situates {root : Node} (hwell : root.WellNested) (hsize : root.stop ≤ source.length)
    (htop : root.FileScopedOnTop) (htypes : root.NoNamespaceInType) (offset : Nat) :
    (ofTree root source).Situates offset := by
  have hroot : Regular source root := ⟨hwell, htypes, hsize⟩
  have hnested : Nested .nameSpace [] 0 (source.length + 1) (ofTree root source).scopes :=
    nested_scopesAmong_top (fun c hc => hroot.of_mem_nodes (Node.child_mem_nodes hc)) htop
      (hwell.ordered root root.self_mem_nodes)
      (fun c hc => declaresFrom_start (hwell.child hc) (Nat.zero_le _)) (Nat.zero_le _)
  exact hnested.situates offset

/-- An accessor in a class of a file-scoped namespace. -/
def accessorInClass : Bytes :=
  .ofString "namespace A; class B \x7b int P \x7b get \x7b return 1; \x7d \x7d \x7d"

/-- The tree of `accessorInClass`. -/
def accessorInClassTree : Node :=
  .mk { name := "compilation_unit", start := 0, stop := 52 } [
    .mk { name := "file_scoped_namespace_declaration", start := 0, stop := 12 } [
      .mk { name := "identifier", field := "name", start := 10, stop := 11 } []],
    .mk { name := "class_declaration", start := 13, stop := 52 } [
      .mk { name := "identifier", field := "name", start := 19, stop := 20 } [],
      .mk { name := "declaration_list", field := "body", start := 21, stop := 52 } [
        .mk { name := "property_declaration", start := 23, stop := 50 } [
          .mk { name := "predefined_type", field := "type", start := 23, stop := 26 } [],
          .mk { name := "identifier", field := "name", start := 27, stop := 28 } [],
          .mk { name := "accessor_list", field := "accessors", start := 29, stop := 50 } [
            .mk { name := "accessor_declaration", start := 31, stop := 48 } [
              .mk { name := "get", field := "name", start := 31, stop := 34, named := false } [],
              .mk { name := "block", field := "body", start := 35, stop := 48 } [
                .mk { name := "return_statement", start := 37, stop := 46 } [
                  .mk { name := "integer_literal", start := 44, stop := 45 } []]]]]]]]]

/-- In front of the brace of the accessor, the namespace, the class and the property are open and
the accessor is pending. -/
theorem ofTree_situates_accessorInClass :
    accessorInClassTree.WellNested ∧ accessorInClassTree.FileScopedOnTop ∧
      accessorInClassTree.NoNamespaceInType ∧
      (((ofTree accessorInClassTree accessorInClass).contextAt 34).frames.map fun f =>
        (f.name, f.pending)) = [("A", false), ("B", false), ("P", false), ("get", true)] ∧
      ((ofTree accessorInClassTree accessorInClass).contextAt 34).qualifiedPath = "A.B" := by
  have hwell : accessorInClassTree.WellNested :=
    ⟨by decide +kernel, by decide +kernel, by decide +kernel, by decide +kernel⟩
  have htop : accessorInClassTree.FileScopedOnTop := by
    unfold Node.FileScopedOnTop Node.LacksFileScoped
    decide +kernel
  have htypes : accessorInClassTree.NoNamespaceInType := by
    unfold Node.NoNamespaceInType
    decide +kernel
  have hsituates : (ofTree accessorInClassTree accessorInClass).Situates 34 :=
    ofTree_situates hwell (by decide +kernel) htop htypes 34
  refine ⟨hwell, htop, htypes, ?_, ?_⟩
  · rw [hsituates.frames]
    decide +kernel
  · rw [hsituates.path]
    decide +kernel

end Outline

end SymbolAtlas
