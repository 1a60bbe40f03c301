import Mathlib.Tactic
import SymbolAtlas.Proofs.Extract.Paths
import SymbolAtlas.Proofs.Scope.Descent

/-!
# Outline and walk agree on declarations

An outline and a walk go down the same tree by rules of their own. Still they agree on what is
declared: each namespace and type of the outline is reported by the walk, under the same name, on
the same line and in the same order (`Outline.containers_sublist_symbols`).

The walk goes wherever the outline goes (`sublist_scopesAmong`), and the names that the outline
carries along are those on the way down (`namesAround_cons`, `namesAround_succ`). Both hold of
whatever is looked at in scopes and records, as long as the two agree at a node that opens a scope
(`View.Agrees`).
-/

namespace SymbolAtlas

/-- Under which name, as what and on which line something is declared. -/
structure Entry where
  qualifiedName : String
  kind : SymbolKind
  startLine : Nat
  deriving DecidableEq, Repr

/-- What a namespace or type is reported as. -/
def Scope.entry (s : Scope) : Entry where
  qualifiedName := s.qualifiedName
  kind :=
    if s.kind == .nameSpace then .nameSpace
    else if s.keyword == "interface" then .interface
    else .type
  startLine := s.startLine

/-- What is reported of a declaration. -/
def Declaration.entry (d : Declaration) : Entry where
  qualifiedName := d.qualifiedName
  kind := d.kind
  startLine := d.startLine

/-- What is reported of a symbol. -/
def Symbol.entry (s : Symbol) : Entry := s.declaration.entry

/-- What the grammar says of the parts of namespaces and types. -/
structure Node.Grammatical (n : Node) : Prop where
  /-- A body is a list of declarations, and no name. Where there is nothing to declare, a bare token
  can stand in its place. -/
  body : ∀ m ∈ n.nodes, (m.kind.isNamespace || m.kind.isType) = true → ∀ b ∈ m.body?,
    b.children = [] ∨
      (b.label.named = true ∧ b.name ∈ ["declaration_list", "enum_member_declaration_list"] ∧
        b.label.field ≠ "name")
  /-- Nothing is declared inside the name of a namespace. -/
  name : ∀ m ∈ n.nodes, m.kind.isNamespace = true → ∀ name ∈ m.field? "name",
    ∀ d ∈ name.nodes, (d.kind.isNamespace || d.kind.isType) = false

theorem Node.Grammatical.of_mem_nodes {m n : Node} (h : n.Grammatical) (hm : m ∈ n.nodes) :
    m.Grammatical where
  body k hk := h.body k (mem_nodes_trans hk hm)
  name k hk := h.name k (mem_nodes_trans hk hm)

/-! ### Names on the way down -/

/-- The namespace or type that a role is. -/
def Role.container? : Role → Option String
  | .nameSpace name | .type name => some name
  | _ => none

namespace Surroundings

variable {env : WalkEnv} {above : List (Nat × Node)} {n c : Node} {i : Nat}

theorem namesAround_cons (habove : above ≠ [])
    (h : (n.role env).nameSpace? = none ∨ typesAround env above = []) :
    namesAround env ((i, n) :: above) =
      namesAround env above ++ (n.role env).container?.toList := by
  rw [namesAround, namesAround, openedBefore_cons habove, namespacesAround_cons, typesAround_cons]
  cases hrole : n.role env with
  | nameSpace name =>
    have htypes : typesAround env above = [] := h.resolve_left (by simp [hrole, Role.nameSpace?])
    simp [Role.nameSpace?, Role.type?, Role.container?, htypes]
  | _ => simp [Role.nameSpace?, Role.type?, Role.container?]

theorem namesAround_succ (hc : n.children[i]? = some c)
    (h : (above = [] ∧ n.role env = .plain) ∨ c.kind ≠ .fileScopedNamespace) :
    namesAround env ((i + 1, n) :: above) =
      namesAround env ((i, n) :: above) ++ fileScopedNames env.source [c] := by
  have hsucc := congrArg names (around_succ hc h)
  rw [names_around] at hsucc
  rw [hsucc]
  rcases h with ⟨rfl, hrole⟩ | hkind
  · have htypes : typesAround env [(i, n)] = [] := by simp [typesAround, hrole, Role.type?]
    simp [names, extend, around, namesAround, htypes]
  · rw [fileScopedNames_of_ne (by simpa using hkind), extend_nil, List.append_nil, names_around]

end Surroundings

namespace Outline

open Surroundings

theorem fieldText?_of_containerScope? {source : Bytes} {path : List String} {n : Node}
    (hkind : n.kind = .fileScopedNamespace) (h : containerScope? source path n = none) :
    n.fieldText? source "name" = none := by
  cases hname : n.fieldText? source "name" with
  | none => rfl
  | some name =>
    obtain ⟨htext, hne⟩ := Option.filter_eq_some_iff.1 hname
    obtain ⟨c, hc, rfl⟩ := Option.map_eq_some_iff.1 htext
    simp [containerScope?, hc, hkind, bne_iff_ne.1 hne] at h

/-- Behind a node the names around are those before it and that of a file-scoped namespace. -/
theorem snd_scopesAt (source : Bytes) (path : List String) (n : Node) :
    (scopesAt source path n).2 = path ++ fileScopedNames source [n] := by
  by_cases hkind : n.kind = .fileScopedNamespace
  · have hcase := scopesAt_spec source path n
    generalize scopesAt source path n = result at hcase
    cases hcase with
    | nothing hnone =>
      have hnames : fileScopedNames source [n] = [] := by
        by_cases hnamed : n.label.named = true
        · have hname := fieldText?_of_containerScope? hkind
            (hnone hnamed (by simp [hkind, Kind.isNamespace]))
          simp [fileScopedNames_singleton hnamed, Node.staysOpen, hname]
        · exact fileScopedNames_of_not_named hnamed
      rw [hnames, List.append_nil]
    | member hmember => simp [hkind, Kind.isMember] at hmember
    | transparent _ htransparent => simp [hkind, isTransparent] at htransparent
    | container hnamed _ hs =>
      simp [fileScopedNames_singleton hnamed, Node.staysOpen, hkind, hs.fileScoped, hs.name]
  · rw [snd_scopesAt_of_ne hkind, fileScopedNames_of_ne (by simpa using hkind), List.append_nil]

/-! ### What is declared -/

theorem filter_memberScopes (source : Bytes) (path : List String) (n : Node) :
    (memberScopes source path n).filter (·.isContainer) = [] := by
  refine List.filter_eq_nil_iff.2 fun s hs => ?_
  have hkind : s.kind = .member := kind_of_mem_memberScopes hs
  simp [Scope.isContainer, hkind]

/-- A node without namespaces and types adds none to the outline. -/
theorem filter_scopesAt_of_none {source : Bytes} {path : List String} {n : Node}
    (h : ∀ m ∈ n.nodes, (m.kind.isNamespace || m.kind.isType) = false) :
    (scopesAt source path n).1.filter (·.isContainer) = [] := by
  induction n using Node.belowInduction generalizing path with
  | node n ih =>
    have hcase := scopesAt_spec source path n
    generalize scopesAt source path n = result at hcase
    cases hcase with
    | nothing => rfl
    | member => exact filter_memberScopes source path n
    | container _ hkind => simp [h n n.self_mem_nodes] at hkind
    | transparent =>
      have hamong (cs : List Node) (hcs : ∀ c ∈ cs, c ∈ n.children) (path : List String) :
          (scopesAmong source path cs).filter (·.isContainer) = [] := by
        induction cs generalizing path with
        | nil => rfl
        | cons c cs ihcs =>
          have hc := hcs c List.mem_cons_self
          rw [scopesAmong, List.filter_append, ih c hc c c.self_mem_nodes fun m hm =>
            h m (Node.mem_nodes_of_mem_children hc hm), List.nil_append]
          exact ihcs (fun d hd => hcs d (List.mem_cons_of_mem c hd)) _
      exact hamong n.children (fun _ hc => hc) path

theorem filter_scopesAt_of_not_named {source : Bytes} {path : List String} {n : Node}
    (h : ¬ n.label.named = true) : (scopesAt source path n).1.filter (·.isContainer) = [] := by
  have hcase := scopesAt_spec source path n
  generalize scopesAt source path n = result at hcase
  cases hcase with
  | nothing => rfl
  | member => exact filter_memberScopes source path n
  | container hnamed => exact absurd hnamed h
  | transparent hnamed => exact absurd hnamed h

theorem keywordOf_eq_interface_iff (name : String) :
    keywordOf name = "interface" ↔ Kind.ofName name = .interfaceDeclaration := by
  have hkeyword : keywordOf name = "interface" ↔ name = "interface_declaration" := by
    unfold keywordOf
    split <;> simp_all
  have hkind : Kind.ofName name = .interfaceDeclaration ↔ name = "interface_declaration" := by
    unfold Kind.ofName
    split <;> simp_all
  rw [hkeyword, hkind]

end Outline

namespace Site

/-- What the symbols at sites are reported as. -/
def entries (env : WalkEnv) (sites : List Site) : List Entry :=
  (sites.flatMap (·.declarations env)).map Declaration.entry

/-- A namespace or type is reported as what its scope says. -/
theorem entries_of_opensContainer {env : WalkEnv} {n : Node} {above : List (Nat × Node)} {s : Scope}
    (hsize : env.options.preludeSize = 0) (hkind : (n.kind.isNamespace || n.kind.isType) = true)
    (hs : Outline.OpensContainer env.source (Surroundings.namesAround env above) n s) :
    entries env [{ node := n, above }] = [s.entry] := by
  have hprelude : Walk.isPrelude env n = false := by simp [Walk.isPrelude, hsize]
  have hinterface : Outline.keywordOf n.name = "interface" ↔ n.kind = .interfaceDeclaration :=
    Outline.keywordOf_eq_interface_iff n.name
  have hdeclares : n.declares env = [(s.name, s.entry.kind)] := by
    unfold Node.declares Scope.entry
    rw [hs.kind, hs.keyword]
    cases hn : n.kind <;> simp_all [hs.name, Kind.isNamespace, Kind.isType]
  simp [entries, declarations, Surroundings.report, hprelude, hdeclares, Declaration.entry,
    Scope.entry, hs.qualifiedName, hs.startLine, Surroundings.qualify]

theorem sublist_reachedIn {env : WalkEnv} {above : List (Nat × Node)} {parent c : Node}
    {cs : List Node} {i j k : Nat} (hk : i + j = k) (hc : cs[j]? = some c)
    (hvisits : parent.visits env k c = true) :
    (reachedFrom env ((k, parent) :: above) c).Sublist (reachedIn env above parent i cs) := by
  induction cs generalizing i j with
  | nil => simp at hc
  | cons d cs ih =>
    rw [reachedIn]
    cases j with
    | zero =>
      obtain rfl : d = c := by simpa using hc
      obtain rfl : i = k := hk
      rw [if_pos hvisits]
      exact List.sublist_append_left _ _
    | succ j =>
      exact List.sublist_append_of_sublist_right (ih (by omega : i + 1 + j = k) hc)

end Site

/-- What is looked at, of a scope and of a record made at a site. -/
structure View (γ β : Type) where
  ofScope : Scope → β
  records : Site → List γ
  ofRecord : γ → β

namespace View

variable {γ β : Type} (v : View γ β)

/-- A node that opens a scope makes one record, of which the same is seen as of the scope. -/
def Agrees (env : WalkEnv) : Prop :=
  ∀ {n : Node} {above : List (Nat × Node)} {s : Scope},
    (n.kind.isNamespace || n.kind.isType) = true →
    Outline.OpensContainer env.source (Surroundings.namesAround env above) n s →
    (v.records { node := n, above }).map v.ofRecord = [v.ofScope s]

/-- What is seen of the namespaces and types among scopes. -/
def ofScopes (scopes : List Scope) : List β := (scopes.filter (·.isContainer)).map v.ofScope

/-- What is seen of the records made at sites. -/
def ofSites (sites : List Site) : List β := (sites.flatMap v.records).map v.ofRecord

theorem ofScopes_append (a b : List Scope) :
    v.ofScopes (a ++ b) = v.ofScopes a ++ v.ofScopes b := by
  simp [ofScopes]

theorem ofSites_append (a b : List Site) : v.ofSites (a ++ b) = v.ofSites a ++ v.ofSites b := by
  simp [ofSites]

theorem ofSites_sublist {a b : List Site} (h : a.Sublist b) :
    (v.ofSites a).Sublist (v.ofSites b) :=
  (h.flatMap _).map _

theorem ofSites_reachedFrom (env : WalkEnv) (above : List (Nat × Node)) (n : Node) :
    v.ofSites (Site.reachedFrom env above n) =
      v.ofSites [{ node := n, above }] ++
        v.ofSites (Site.reachedIn env above n 0 n.children) := by
  rw [Site.reachedFrom_eq, ← ofSites_append, List.singleton_append]

/-- Names, kinds and first lines of what is declared. -/
def entries (env : WalkEnv) : View Declaration Entry where
  ofScope := Scope.entry
  records := Site.declarations env
  ofRecord := Declaration.entry

theorem agrees_entries {env : WalkEnv} (hsize : env.options.preludeSize = 0) :
    (entries env).Agrees env := by
  intro n above s hkind hs
  have hentries := Site.entries_of_opensContainer hsize hkind hs
  rwa [Site.entries, List.flatMap_singleton] at hentries

end View

/-! ### Both ways down -/

namespace Outline

open Surroundings

variable {env : WalkEnv} {above : List (Nat × Node)} {n : Node} {γ β : Type} {v : View γ β}

/-- Below a place the walk finds what the outline finds at the node. -/
def FoundAt (env : WalkEnv) (v : View γ β) (above : List (Nat × Node)) (n : Node) : Prop :=
  (v.ofScopes (scopesAt env.source (namesAround env above) n).1).Sublist
    (v.ofSites (Site.reachedFrom env above n))

/-- Below a node the walk finds what the outline finds, if it goes into each child that holds a
namespace or type. -/
theorem sublist_scopesAmong
    (hopen : ∀ c ∈ n.children,
      (above = [] ∧ n.role env = .plain) ∨ c.kind ≠ .fileScopedNamespace)
    (hvisits : ∀ (i : Nat) (c : Node), n.children[i]? = some c → c.label.named = true →
      n.visits env i c = true ∨ ∀ m ∈ c.nodes, (m.kind.isNamespace || m.kind.isType) = false)
    (hat : ∀ (i : Nat), ∀ c ∈ n.children, FoundAt env v ((i, n) :: above) c)
    (cs : List Node) (i : Nat) (hcs : n.children.drop i = cs) :
    (v.ofScopes (scopesAmong env.source (namesAround env ((i, n) :: above)) cs)).Sublist
      (v.ofSites (Site.reachedIn env above n i cs)) := by
  -- From child to child both grow by the same file-scoped namespaces.
  induction cs generalizing i with
  | nil => exact List.nil_sublist _
  | cons c cs ih =>
    obtain ⟨hc, hrest⟩ := Node.children_of_drop hcs
    have hmem := List.mem_of_getElem? hc
    rw [scopesAmong, Site.reachedIn, v.ofScopes_append, v.ofSites_append, snd_scopesAt,
      ← namesAround_succ hc (hopen c hmem)]
    refine List.Sublist.append ?_ (ih (i + 1) hrest)
    by_cases hnamed : c.label.named = true
    · rcases hvisits i c hc hnamed with hvisit | hnone
      · rw [if_pos hvisit]
        exact hat i c hmem
      · rw [View.ofScopes, filter_scopesAt_of_none hnone]
        exact List.nil_sublist _
    · rw [View.ofScopes, filter_scopesAt_of_not_named hnamed]
      exact List.nil_sublist _

/-- What is known of every node below the root. -/
structure Orderly (n : Node) : Prop where
  noNamespaceInType : n.NoNamespaceInType
  grammatical : n.Grammatical
  below : ∀ c ∈ n.children, c.LacksFileScoped

theorem Orderly.of_below {c m : Node} (h : Orderly n) (hc : c ∈ n.children) (hm : m ∈ c.nodes) :
    Orderly m where
  noNamespaceInType := h.noNamespaceInType.of_mem_nodes (Node.mem_nodes_of_mem_children hc hm)
  grammatical := h.grammatical.of_mem_nodes (Node.mem_nodes_of_mem_children hc hm)
  below _ hd := ((h.below c hc).of_mem_nodes hm).of_mem_children hd

/-- No type is around the node, or no namespace is in it. -/
def NamespacesOutside (env : WalkEnv) (above : List (Nat × Node)) (n : Node) : Prop :=
  typesAround env above = [] ∨ ∀ m ∈ n.nodes, m.kind.isNamespace = false

theorem NamespacesOutside.role (h : NamespacesOutside env above n) :
    (n.role env).nameSpace? = none ∨ typesAround env above = [] := by
  refine h.symm.imp_left fun hnone => ?_
  cases hrole : n.role env with
  | nameSpace name =>
    have hkind := (Walk.of_role_nameSpace hrole).1
    rw [hnone n n.self_mem_nodes] at hkind
    cases hkind
  | _ => rfl

theorem NamespacesOutside.below {c m : Node} {i : Nat} (h : NamespacesOutside env above n)
    (htypes : n.NoNamespaceInType) (hc : c ∈ n.children) (hm : m ∈ c.nodes) :
    NamespacesOutside env ((i, n) :: above) m := by
  cases hrole : n.role env with
  | type name =>
    have hkind := Walk.of_role_type hrole
    exact .inr fun k hk => htypes n n.self_mem_nodes hkind c hc k (Node.mem_nodes_trans hk hm)
  | _ =>
    refine h.imp (fun hnone => ?_) fun hnone k hk =>
      hnone k (Node.mem_nodes_of_mem_children hc (Node.mem_nodes_trans hk hm))
    rw [typesAround_cons, hrole, hnone]
    rfl

theorem role_of_opensContainer {path : List String} {s : Scope}
    (hkind : (n.kind.isNamespace || n.kind.isType) = true)
    (hs : OpensContainer env.source path n s) :
    n.role env = .nameSpace s.name ∨ n.role env = .type s.name := by
  rcases Bool.or_eq_true_iff.1 hkind with hkind | hkind
  · exact .inl (by rw [Walk.role_of_isNamespace hkind, hs.name, Option.elim_some])
  · exact .inr (by rw [Walk.role_of_isType hkind, hs.name, Option.elim_some])

theorem role_of_isTransparent (h : isTransparent n.kind = true) : n.role env = .plain := by
  unfold Node.role
  cases hkind : n.kind <;> simp_all [isTransparent]

theorem field_of_fieldIndex? {field : String} {i : Nat} {c : Node} (hc : n.children[i]? = some c)
    (h : n.fieldIndex? field = some i) : c.label.field = field ∧ n.field? field = some c := by
  have hfield : n.field? field = some c := by
    rw [Node.field?, List.find?_eq_bind_findIdx?_getElem?, ← Node.fieldIndex?, h, Option.bind_some,
      hc]
  exact ⟨by simpa using List.find?_some hfield, hfield⟩

/-- The walk goes into the body of a namespace or type. -/
theorem visits_body {path : List String} {s : Scope} {i : Nat} {b : Node}
    (hkind : (n.kind.isNamespace || n.kind.isType) = true)
    (hs : OpensContainer env.source path n s) (hindex : n.bodyIndex? = some i)
    (hb : n.children[i]? = some b) (hnamed : b.label.named = true)
    (hfield : b.label.field ≠ "name") : n.visits env i b = true := by
  rcases role_of_opensContainer hkind hs with hrole | hrole
  · have hname : n.fieldIndex? "name" ≠ some i :=
      fun hname => hfield (field_of_fieldIndex? hb hname).1
    simp [Node.visits, hrole, hnamed, hname]
  · simp [Node.visits, hrole, hindex]

theorem role_of_body {b : Node}
    (hname : b.name ∈ ["declaration_list", "enum_member_declaration_list"]) :
    b.role env = .plain := by
  refine role_of_isTransparent ?_
  simp only [List.mem_cons, List.not_mem_nil, or_false] at hname
  rcases hname with hname | hname <;> rw [Node.kind, ← Node.name, hname] <;> rfl

/-- The walk finds what the outline finds below a node that both look through. -/
theorem sublist_of_plain (hrole : n.role env = .plain) (habove : above ≠ [])
    (hbelow : ∀ c ∈ n.children, c.LacksFileScoped)
    (hat : ∀ (i : Nat), ∀ c ∈ n.children, FoundAt env v ((i, n) :: above) c) :
    (v.ofScopes (scopesAmong env.source (namesAround env above) n.children)).Sublist
      (v.ofSites (Site.reachedIn env above n 0 n.children)) := by
  have hnames : namesAround env above = namesAround env ((0, n) :: above) := by
    rw [namesAround_cons habove (.inl (by rw [hrole]; rfl)), hrole]
    exact (List.append_nil _).symm
  rw [hnames]
  exact sublist_scopesAmong (fun c hc => .inr (hbelow c hc).kind_ne)
    (fun i c _ hnamed => .inl (by rw [Node.visits, hrole]; exact hnamed)) hat n.children 0 rfl

/-- The walk finds what the outline finds inside a namespace or type. -/
theorem sublist_held {s : Scope} (h : Orderly n) (habove : above ≠ [])
    (hout : NamespacesOutside env above n) (hkind : (n.kind.isNamespace || n.kind.isType) = true)
    (hs : OpensContainer env.source (namesAround env above) n s)
    (hat : ∀ c ∈ n.children, ∀ m ∈ c.nodes, ∀ above : List (Nat × Node), above ≠ [] →
      NamespacesOutside env above m → FoundAt env v above m) :
    (v.ofScopes (scopesAmong env.source (namesAround env above ++ [s.name]) n.held)).Sublist
      (v.ofSites (Site.reachedIn env above n 0 n.children)) := by
  have hnames (i : Nat) :
      namesAround env above ++ [s.name] = namesAround env ((i, n) :: above) := by
    rw [namesAround_cons habove hout.role]
    rcases role_of_opensContainer hkind hs with hrole | hrole <;> rw [hrole] <;> rfl
  cases hindex : n.bodyIndex? with
  | some i =>
    obtain ⟨b, hb, hbody⟩ := Node.getElem?_of_bodyIndex? hindex
    have hmem := List.mem_of_getElem? hb
    rw [Node.held_of_body? hbody, hnames i]
    rcases h.grammatical.body n n.self_mem_nodes hkind b hbody with hnil | ⟨hnamed, hname, hfield⟩
    · rw [hnil]
      exact List.nil_sublist _
    have hreached : (Site.reachedFrom env ((i, n) :: above) b).Sublist
        (Site.reachedIn env above n 0 n.children) :=
      Site.sublist_reachedIn (Nat.zero_add i) hb (visits_body hkind hs hindex hb hnamed hfield)
    refine List.Sublist.trans ?_ (v.ofSites_sublist hreached)
    rw [v.ofSites_reachedFrom env]
    refine List.sublist_append_of_sublist_right ?_
    refine sublist_of_plain (role_of_body hname) (List.cons_ne_nil _ _)
      (fun c hc => (h.below b hmem).of_mem_children hc) fun j c hc => ?_
    have hdown := Node.child_mem_nodes hc
    exact hat b hmem c hdown _ (List.cons_ne_nil _ _)
      ((hout.below h.noNamespaceInType hmem b.self_mem_nodes).below
        (h.of_below hmem b.self_mem_nodes).noNamespaceInType hc c.self_mem_nodes)
  | none =>
    -- Only a file-scoped namespace opens a scope without a body. The outline looks into its name,
    -- where nothing is declared, and the walk does not.
    have hbody : n.body? = none := by rw [Node.body?_eq, hindex, Option.bind_none]
    have hspace : n.kind.isNamespace = true := by
      by_contra hne
      obtain ⟨b, hb, -⟩ := hs.body_bytes fun hfile => hne (by rw [hfile]; rfl)
      rw [hbody] at hb
      cases hb
    have hrole : n.role env = .nameSpace s.name := by
      rw [Walk.role_of_isNamespace hspace, hs.name, Option.elim_some]
    rw [Node.held, hbody, hnames 0]
    refine sublist_scopesAmong (fun c hc => .inr (h.below c hc).kind_ne) (fun i c hc hnamed => ?_)
      (fun i c hc => hat c hc c c.self_mem_nodes _ (List.cons_ne_nil _ _)
        (hout.below h.noNamespaceInType hc c.self_mem_nodes)) n.children 0 rfl
    by_cases hname : n.fieldIndex? "name" = some i
    · exact .inr (h.grammatical.name n n.self_mem_nodes hspace c (field_of_fieldIndex? hc hname).2)
    · exact .inl (by simp [Node.visits, hrole, hnamed, hname])

/-- At and below every node but the root, the walk finds what the outline finds. -/
theorem foundAt_of_agrees (hv : v.Agrees env) (h : Orderly n) (habove : above ≠ [])
    (hout : NamespacesOutside env above n) : FoundAt env v above n := by
  induction n using Node.belowInduction generalizing above with
  | node n ih =>
    have hat c (hc : c ∈ n.children) m (hm : m ∈ c.nodes) (above : List (Nat × Node))
        (habove : above ≠ []) (hout : NamespacesOutside env above m) : FoundAt env v above m :=
      ih c hc m hm (h.of_below hc hm) habove hout
    have hcase := scopesAt_spec env.source (namesAround env above) n
    rw [FoundAt, v.ofSites_reachedFrom env]
    generalize scopesAt env.source (namesAround env above) n = result at hcase
    cases hcase with
    | nothing => exact List.nil_sublist _
    | member =>
      rw [View.ofScopes, filter_memberScopes]
      exact List.nil_sublist _
    | @container s _ hkind hs =>
      have hcontainer : s.isContainer = true := by
        rw [Scope.isContainer, hs.kind]
        split <;> rfl
      have hhere : v.ofSites [{ node := n, above }] = [v.ofScope s] := by
        rw [View.ofSites, List.flatMap_singleton, hv hkind hs]
      rw [hhere, View.ofScopes, List.filter_cons_of_pos hcontainer]
      exact (sublist_held h habove hout hkind hs hat).cons_cons (v.ofScope s)
    | transparent _ hkind =>
      refine List.sublist_append_of_sublist_right (sublist_of_plain (role_of_isTransparent hkind)
        habove h.below fun i c hc => ?_)
      exact hat c hc c c.self_mem_nodes _ (List.cons_ne_nil _ _)
        (hout.below h.noNamespaceInType hc c.self_mem_nodes)

/-- In a whole tree, the walk finds what the outline finds. -/
theorem sublist_ofTree {root : Node} (hv : v.Agrees env) (hunit : root.IsUnit)
    (htop : root.FileScopedOnTop) (htypes : root.NoNamespaceInType)
    (hgrammar : root.Grammatical) :
    (v.ofScopes (ofTree root env.source).scopes).Sublist (v.ofSites (Site.reached env root)) := by
  have hrole : root.role env = .plain := hunit.role_eq env
  have hnames : namesAround env [(0, root)] = [] := by
    simp [namesAround, openedBefore, namespacesAround, typesAround, fileScopedNames, hrole,
      Role.nameSpace?, Role.type?]
  have hat (i : Nat) (c : Node) (hc : c ∈ root.children) : FoundAt env v [(i, root)] c := by
    have hmem := Node.child_mem_nodes hc
    have horderly : Orderly c :=
      ⟨htypes.of_mem_nodes hmem, hgrammar.of_mem_nodes hmem, htop c hc⟩
    have hout : NamespacesOutside env [(i, root)] c := by
      left
      rw [typesAround_cons, hrole]
      rfl
    exact foundAt_of_agrees hv horderly (List.cons_ne_nil _ _) hout
  rw [Site.reached, v.ofSites_reachedFrom, ofTree, ← hnames]
  exact List.sublist_append_of_sublist_right (sublist_scopesAmong (fun c _ => .inl ⟨rfl, hrole⟩)
    (fun i c _ hnamed => .inl (by rw [Node.visits, hrole]; exact hnamed)) hat root.children 0 rfl)

theorem map_entry_symbols (source : Bytes) (options : ExtractOptions) {root : Node}
    (hunit : root.IsUnit) (h : root.FileScopedOnTop) :
    (Findings.ofTree source options root).symbols.map Symbol.entry =
      Site.entries (Walk.envOf source options root)
        (Site.reached (Walk.envOf source options root) root) := by
  calc (Findings.ofTree source options root).symbols.map Symbol.entry
      = ((Findings.ofTree source options root).symbols.map Symbol.declaration).map
          Declaration.entry := by rw [List.map_map]; rfl
    _ = _ := by rw [Walk.map_declaration_symbols source options hunit h]; rfl

/-- Each namespace and type of an outline has a symbol of its own, with the same qualified name, the
same line and the kind that belongs to it, in the same order. -/
theorem containers_sublist_symbols (source : Bytes) {options : ExtractOptions} {root : Node}
    (hunit : root.IsUnit) (htop : root.FileScopedOnTop) (htypes : root.NoNamespaceInType)
    (hgrammar : root.Grammatical) (hsize : options.preludeSize = 0) :
    ((ofTree root source).containers.map Scope.entry).Sublist
      ((Findings.ofTree source options root).symbols.map Symbol.entry) := by
  let env := Walk.envOf source options root
  have hagrees : (View.entries env).Agrees env := View.agrees_entries hsize
  rw [map_entry_symbols source options hunit htop]
  exact sublist_ofTree hagrees hunit htop htypes hgrammar

/-- An interface and a class with an enum, in a file-scoped namespace. -/
def typesInFile : Bytes :=
  .ofString "namespace A; interface B \x7b void F(); \x7d class C \x7b enum D \x7b \x7d \x7d"

/-- The tree of `typesInFile`. -/
def typesInFileTree : Node :=
  .mk { name := "compilation_unit", start := 0, stop := 61 } [
    .mk { name := "file_scoped_namespace_declaration", start := 0, stop := 12 } [
      identifier 10],
    .mk { name := "interface_declaration", start := 13, stop := 38 } [
      identifier 23,
      .mk { name := "declaration_list", field := "body", start := 25, stop := 38 } [
        .mk { name := "method_declaration", start := 27, stop := 36 } [
          .mk { name := "predefined_type", field := "returns", start := 27, stop := 31 } [],
          identifier 32,
          .mk { name := "parameter_list", field := "parameters", start := 33, stop := 35 } []]]],
    .mk { name := "class_declaration", start := 39, stop := 61 } [
      identifier 45,
      .mk { name := "declaration_list", field := "body", start := 47, stop := 61 } [
        .mk { name := "enum_declaration", start := 49, stop := 59 } [
          identifier 54,
          .mk { name := "enum_member_declaration_list", field := "body", start := 56, stop := 59 }
            []]]]]
where
  /-- A name of one letter. -/
  identifier (start : Nat) : Node :=
    .mk { name := "identifier", field := "name", start, stop := start + 1 } []

/-- All four of `typesInFile` are reported. -/
theorem containers_sublist_symbols_typesInFile :
    typesInFileTree.IsUnit ∧ typesInFileTree.FileScopedOnTop ∧
      typesInFileTree.NoNamespaceInType ∧ typesInFileTree.Grammatical ∧
      [⟨"A", .nameSpace, 1⟩, ⟨"A.B", .interface, 1⟩, ⟨"A.C", .type, 1⟩, ⟨"A.C.D", .type, 1⟩].Sublist
        ((Findings.ofTree typesInFile {} typesInFileTree).symbols.map Symbol.entry) := by
  have hunit : typesInFileTree.IsUnit := .inl (by decide +kernel)
  have htop : typesInFileTree.FileScopedOnTop := by
    unfold Node.FileScopedOnTop Node.LacksFileScoped
    decide +kernel
  have htypes : typesInFileTree.NoNamespaceInType := by
    unfold Node.NoNamespaceInType
    decide +kernel
  have hgrammar : typesInFileTree.Grammatical := ⟨by decide +kernel, by decide +kernel⟩
  have hentries : (ofTree typesInFileTree typesInFile).containers.map Scope.entry =
      [⟨"A", .nameSpace, 1⟩, ⟨"A.B", .interface, 1⟩, ⟨"A.C", .type, 1⟩, ⟨"A.C.D", .type, 1⟩] := by
    decide +kernel
  refine ⟨hunit, htop, htypes, hgrammar, ?_⟩
  rw [← hentries]
  exact containers_sublist_symbols typesInFile hunit htop htypes hgrammar rfl

end Outline

end SymbolAtlas
