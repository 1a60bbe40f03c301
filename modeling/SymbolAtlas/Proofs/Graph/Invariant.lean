import Mathlib.Tactic
import SymbolAtlas.Graph.Basic
import SymbolAtlas.Proofs.Graph.Indexing

/-!
# The invariant of an atlas

`Atlas.Inv` says that the indexes of an atlas describe its graph, and how its vertices and arcs fit
together. It holds of the empty atlas and is kept when something is added:

* `Inv.addRepository` — a repository;
* `Inv.withFile` — the vertex of a file that was not there;
* `Inv.addSymbol` — a symbol of a file.
-/

namespace SymbolAtlas

theorem Path.same_iff {p q : Path} : p.same q ↔ p.components = q.components := by
  simp [same]

/-- The vertex is that of the file, or that of a symbol in it. -/
def Vertex.liesIn (v : Vertex) (path : Path) : Bool := v.kind ≠ .repository && v.path.same path

/-- A file is in at most one repository, and a symbol in just one file, its own. -/
def Housed (vs : List (Nat × Vertex)) (v : Vertex) (homes : List Nat) : Prop :=
  match v.kind with
  | .repository => homes = []
  | .file => homes = [] ∨ ∃ n w, homes = [n] ∧ (n, w) ∈ vs ∧ w.kind = .repository
  | .symbol _ => ∃ n w, homes = [n] ∧ (n, w) ∈ vs ∧ w.kind = .file ∧ w.path = v.path

theorem Housed.mono {vs ws : List (Nat × Vertex)} {v : Vertex} {homes : List Nat}
    (h : Housed vs v homes) (hsub : ∀ e ∈ vs, e.1 ∈ homes → e ∈ ws) : Housed ws v homes := by
  unfold Housed at h ⊢
  split at h
  · exact h
  · rcases h with rfl | ⟨n, w, rfl, hmem, hw⟩
    · exact Or.inl rfl
    · exact Or.inr ⟨n, w, rfl, hsub _ hmem List.mem_cons_self, hw⟩
  · obtain ⟨n, w, rfl, hmem, hw⟩ := h
    exact ⟨n, w, rfl, hsub _ hmem List.mem_cons_self, hw⟩

theorem Housed.cons {vs : List (Nat × Vertex)} {v : Vertex} {homes : List Nat}
    (h : Housed vs v homes) (e : Nat × Vertex) : Housed (e :: vs) v homes :=
  h.mono fun _ hmem _ => List.mem_cons_of_mem _ hmem

theorem Vertex.isSymbol_iff {v : Vertex} : v.isSymbol ↔ ∃ kind, v.kind = .symbol kind := by
  unfold isSymbol
  split <;> simp_all

theorem Housed.of_isSymbol {vs : List (Nat × Vertex)} {v : Vertex} {homes : List Nat}
    (h : Housed vs v homes) (hv : v.isSymbol) :
    ∃ n w, homes = [n] ∧ (n, w) ∈ vs ∧ w.kind = .file ∧ w.path = v.path := by
  obtain ⟨kind, hkind⟩ := Vertex.isSymbol_iff.1 hv
  simpa only [Housed, hkind] using h

/-- A dependency joins a symbol, or a file, to another symbol. -/
def Arc.Proper (vs : List (Nat × Vertex)) (a : Arc) : Prop :=
  a.source ≠ a.target ∧ (∃ v, (a.source, v) ∈ vs ∧ v.kind ≠ .repository) ∧
    ∃ v, (a.target, v) ∈ vs ∧ v.isSymbol

theorem Arc.Proper.mono {vs ws : List (Nat × Vertex)} {a : Arc} (h : a.Proper vs)
    (hsub : ∀ e ∈ vs, e.1 = a.source ∨ e.1 = a.target → e ∈ ws) : a.Proper ws := by
  obtain ⟨hne, ⟨v, hv, hkind⟩, w, hw, hsymbol⟩ := h
  exact ⟨hne, ⟨v, hsub _ hv (Or.inl rfl), hkind⟩, w, hsub _ hw (Or.inr rfl), hsymbol⟩

theorem Arc.Proper.cons {vs : List (Nat × Vertex)} {a : Arc} (h : a.Proper vs)
    (e : Nat × Vertex) : a.Proper (e :: vs) :=
  h.mono fun _ hmem _ => List.mem_cons_of_mem _ hmem

namespace Atlas

/-- The vertices of an atlas with their numbers, the newest first. -/
abbrev rows (g : Atlas) : List (Nat × Vertex) := g.net.vertices.items

/-- The indexes by name describe the graph. -/
structure Named (g : Atlas) : Prop where
  wf : g.net.WF
  qualified : Lists g.qualified Vertex.name g.rows
  simple : Lists g.simple Vertex.simpleName g.rows

/-- All indexes of vertices describe the graph. -/
structure Indexed (g : Atlas) : Prop extends g.Named where
  files : Locates g.files .file g.rows
  repositories : Locates g.repositories .repository g.rows

/-- The indexes describe the graph, and its parts fit together. -/
structure Inv (g : Atlas) : Prop extends g.Indexed where
  housed : ∀ e ∈ g.rows, Housed g.rows e.2 (g.net.homes e.1)
  linked : Joins g.linked g.net.links
  links : ∀ a ∈ g.net.links, a.2.Proper g.rows
  pending : ∀ d ∈ g.pending, (g.files.find? d.path.components).isSome
  entities : ∀ e ∈ g.entities, (g.files.find? e.1.components).isSome

theorem inv_empty : Inv {} where
  wf := Net.wf_empty
  qualified := Lists.empty
  simple := Lists.empty
  files := Maps.empty
  repositories := Maps.empty
  housed := by simp [rows]
  linked := Maps.empty
  links := by simp [Net.links]
  pending := by simp
  entities := by simp

/-! ### Adding -/

theorem isSome_find?_insert {κ β : Type} [DecidableEq κ] {ix : Index κ β} {key other : κ}
    (h : (ix.find? other).isSome) (value : β) : ((ix.insert key value).find? other).isSome := by
  rw [Index.find?_insert]
  split
  · rfl
  · exact h

variable {g : Atlas}

/-- The vertex of a repository comes with the number that the atlas gives for it. -/
theorem Inv.mem_addRepository (h : g.Inv) (root : Path) :
    ∃ v, ((g.addRepository root).1, v) ∈ (g.addRepository root).2.rows ∧ v.kind = .repository := by
  cases hfind : g.repositories.find? root.components with
  | none =>
    simp only [addRepository, hfind]
    exact ⟨.ofRepository root, List.mem_cons_self, rfl⟩
  | some n =>
    simp only [addRepository, hfind]
    obtain ⟨v, hmem, hkind, -⟩ := h.repositories.find?_eq_some_iff.1 hfind
    exact ⟨v, hmem, hkind⟩

theorem mem_rows_addRepository (root : Path) : ∀ e ∈ g.rows, e ∈ (g.addRepository root).2.rows := by
  intro e he
  unfold addRepository
  split
  · exact he
  · exact List.mem_cons_of_mem _ he

theorem Inv.addRepository (h : g.Inv) (root : Path) : (g.addRepository root).2.Inv := by
  cases hfind : g.repositories.find? root.components with
  | some n => simpa only [Atlas.addRepository, hfind] using h
  | none =>
    simp only [Atlas.addRepository, hfind]
    refine
      { wf := h.wf.addVertex _
        qualified := h.qualified.cons_of_not_isSymbol rfl
        simple := h.simple.cons_of_not_isSymbol rfl
        files := h.files.cons_of_none (Vertex.pathAs?_of_ne (by simp [Vertex.ofRepository]))
        repositories := h.repositories.insert (Vertex.pathAs?_ofRepository root) hfind
        housed := ?_
        linked := h.linked
        links := fun a ha => (h.links a ha).cons _
        pending := h.pending
        entities := h.entities }
    intro e he
    rcases List.mem_cons.1 he with rfl | he
    · exact h.wf.homes_eq_nil h.wf.next_not_live
    · exact (h.housed e he).cons _

/-- The atlas with the vertex of a file, in a repository or in none. -/
def withFile (g : Atlas) (repository : Option Nat) (path : Path) : Atlas :=
  let net := g.net.addVertex (.ofFile path)
  { g with
    net :=
      match repository with
      | some number => net.addArc number g.net.vertices.next .containment
      | none => net
    files := g.files.insert path.components g.net.vertices.next }

theorem ingest_eq (g : Atlas) (repository : Option Nat) (path : Path) (found : Findings)
    (entities : List Entity) :
    g.ingest repository path found entities =
      let file := (g.removeFile path).net.vertices.next
      let g' := found.symbols.foldl (addSymbol path file) ((g.removeFile path).withFile repository path)
      (file, { g' with
        pending := g'.pending ++ found.dependencies.map (.ofDependency path)
        entities := g'.entities ++ entities.map fun e => (path, e) }) := rfl

theorem rows_withFile (g : Atlas) (repository : Option Nat) (path : Path) :
    (g.withFile repository path).rows = (g.net.vertices.next, .ofFile path) :: g.rows := by
  cases repository <;> rfl

theorem Inv.withFile (h : g.Inv) {repository : Option Nat} {path : Path}
    (hrepository : ∀ n ∈ repository, ∃ v, (n, v) ∈ g.rows ∧ v.kind = .repository)
    (hnone : g.files.find? path.components = none) : (g.withFile repository path).Inv := by
  have hrows := rows_withFile g repository path
  have hlinks : (g.withFile repository path).net.links = g.net.links := by
    cases repository with
    | none => rfl
    | some n => exact Net.links_containment _ _ _
  refine
    { wf := ?_
      qualified := hrows ▸ h.qualified.cons_of_not_isSymbol rfl
      simple := hrows ▸ h.simple.cons_of_not_isSymbol rfl
      files := hrows ▸ h.files.insert (Vertex.pathAs?_ofFile path) hnone
      repositories := hrows ▸ h.repositories.cons_of_none
        (Vertex.pathAs?_of_ne (by simp [Vertex.ofFile]))
      housed := ?_
      linked := hlinks ▸ h.linked
      links := by
        rw [hrows, hlinks]
        exact fun a ha => (h.links a ha).cons _
      pending := fun d hd => isSome_find?_insert (h.pending d hd) _
      entities := fun e he => isSome_find?_insert (h.entities e he) _ }
  · cases repository with
    | none => exact h.wf.addVertex _
    | some n =>
      obtain ⟨v, hmem, -⟩ := hrepository n rfl
      exact (h.wf.addVertex _).addArc (List.mem_cons_of_mem _ (Net.live_of_mem hmem))
        List.mem_cons_self _
  · rw [hrows]
    intro e he
    rcases List.mem_cons.1 he with rfl | he
    · -- The new vertex was in nothing, so its one home is the repository it is put in.
      have hnil := h.wf.homes_eq_nil h.wf.next_not_live
      cases repository with
      | none => exact Or.inl hnil
      | some n =>
        obtain ⟨v, hmem, hkind⟩ := hrepository n rfl
        refine Or.inr ⟨n, v, ?_, List.mem_cons_of_mem _ hmem, hkind⟩
        exact (Net.homes_containment _ _ _ _).trans (by rw [if_pos rfl, Net.homes_addVertex, hnil])
    · have hne : e.1 ≠ g.net.vertices.next := h.wf.vertices.next_fresh e he
      have hhomes : (g.withFile repository path).net.homes e.1 = g.net.homes e.1 := by
        cases repository with
        | none => rfl
        | some n => exact (Net.homes_containment _ _ _ _).trans (if_neg hne)
      rw [hhomes]
      exact (h.housed e he).cons _

theorem Inv.addSymbol (h : g.Inv) {path : Path} {file : Nat} {v : Vertex}
    (hfile : (file, v) ∈ g.rows) (hkind : v.kind = .file) (hpath : v.path = path) (s : Symbol) :
    (addSymbol path file g s).Inv where
  wf := (h.wf.addVertex _).addArc (List.mem_cons_of_mem _ (Net.live_of_mem hfile))
    List.mem_cons_self _
  qualified := h.qualified.add rfl
  simple := h.simple.add rfl
  files := h.files.cons_of_none (Vertex.pathAs?_of_ne (by simp [Vertex.ofSymbol]))
  repositories := h.repositories.cons_of_none (Vertex.pathAs?_of_ne (by simp [Vertex.ofSymbol]))
  housed e he := by
    simp only [Atlas.addSymbol, Net.homes_containment, Net.homes_addVertex]
    rcases List.mem_cons.1 he with rfl | he
    · rw [if_pos rfl, h.wf.homes_eq_nil h.wf.next_not_live]
      exact ⟨file, v, rfl, List.mem_cons_of_mem _ hfile, hkind, hpath⟩
    · rw [if_neg (h.wf.vertices.next_fresh e he)]
      exact (h.housed e he).cons _
  linked := by
    simp only [Atlas.addSymbol, Net.links_containment]
    exact h.linked
  links := by
    simp only [Atlas.addSymbol, Net.links_containment]
    exact fun a ha => (h.links a ha).cons _
  pending := h.pending
  entities := h.entities

end Atlas

end SymbolAtlas
