import Mathlib.Tactic
import SymbolAtlas.Proofs.Graph.Files
import SymbolAtlas.Proofs.Snapshot.Restore

/-!
# Reachable atlases are consistent

`Atlas.Reachable` are the atlases that come from the empty one by adding repositories, ingesting and
removing files, linking, and storing and loading, in any order. `Atlas.Consistent` says in terms of
looking up vertices and arcs that the indexes describe the graph exactly.

* `Reachable.inv` — a reachable atlas has the invariant.
* `consistent_of_reachable` — a reachable atlas is consistent.
-/

namespace SymbolAtlas.Atlas

/-- An atlas that can be reached from the empty one, with the numbers of the repositories that
`addRepository` gave for it. -/
inductive Reachable : List Nat → Atlas → Prop where
  | empty : Reachable [] {}
  | addRepository {issued : List Nat} {g : Atlas} (root : Path) : Reachable issued g →
      Reachable (issued ++ [(g.addRepository root).1]) (g.addRepository root).2
  | ingest {issued : List Nat} {g : Atlas} (repository : Option Nat) (path : Path)
      (found : Findings) (entities : List Entity) : Reachable issued g →
      (∀ n ∈ repository, n ∈ issued) →
      Reachable issued (g.ingest repository path found entities).2
  | removeFile {issued : List Nat} {g : Atlas} (path : Path) : Reachable issued g →
      Reachable issued (g.removeFile path)
  | link {issued : List Nat} {g : Atlas} : Reachable issued g → Reachable issued g.link
  /-- Of a stored atlas, numbers and lengths fit in eight bytes. The repositories of the loaded one
  have to be asked for anew. -/
  | reload {issued : List Nat} {g g' : Atlas} : Reachable issued g → g.Storable →
      Atlas.ofBytes g.toBytes = .ok g' → Reachable [] g'

/-! ### The invariant along a run -/

/-- The numbers stand for repositories. -/
def AllRepositories (issued : List Nat) (g : Atlas) : Prop :=
  ∀ n ∈ issued, ∃ v, (n, v) ∈ g.rows ∧ v.kind = .repository

theorem AllRepositories.mono {issued : List Nat} {g g' : Atlas} (h : AllRepositories issued g)
    (hrows : ∀ e ∈ g.rows, e.2.kind = .repository → e ∈ g'.rows) : AllRepositories issued g' := by
  intro n hn
  obtain ⟨v, hmem, hkind⟩ := h n hn
  exact ⟨v, hrows _ hmem hkind, hkind⟩

variable {issued : List Nat} {g : Atlas}

/-- A reachable atlas has the invariant, and its repositories stay where they are. -/
theorem Reachable.inv_and_repositories (h : Reachable issued g) :
    g.Inv ∧ AllRepositories issued g := by
  induction h with
  | empty => exact ⟨inv_empty, fun n hn => by cases hn⟩
  | @addRepository issued g root _ ih =>
    obtain ⟨hinv, hissued⟩ := ih
    refine ⟨hinv.addRepository root, fun n hn => ?_⟩
    rcases List.mem_append.1 hn with hn | hn
    · exact hissued.mono (fun e he _ => mem_rows_addRepository root e he) n hn
    · rw [List.mem_singleton.1 hn]
      exact hinv.mem_addRepository root
  | @ingest issued g repository path found entities _ hrepository ih =>
    obtain ⟨hinv, hissued⟩ := ih
    refine ⟨hinv.ingest (fun n hn => hissued n (hrepository n hn)) path found entities,
      hissued.mono fun e he hkind => ?_⟩
    obtain ⟨new, hrows, -⟩ := hinv.exists_rows_ingest repository path found entities
    rw [hrows, ← hinv.rows_removeFile]
    exact List.mem_append_right _ (hinv.mem_rows_removeFile path he hkind)
  | removeFile path _ ih =>
    obtain ⟨hinv, hissued⟩ := ih
    exact ⟨hinv.removeFile path,
      hissued.mono fun e he hkind => hinv.mem_rows_removeFile path he hkind⟩
  | @link issued g _ ih =>
    obtain ⟨hinv, hissued⟩ := ih
    exact ⟨hinv.link, hissued.mono fun e he _ => (rows_link g).symm ▸ he⟩
  | @reload issued g g' _ hstorable hload ih =>
    -- Loading numbers the vertices anew, so no number given out before is of use.
    rw [ofBytes_toBytes hstorable] at hload
    obtain rfl := Except.ok.inj hload
    exact ⟨ih.1.toAtlas_ofAtlas, fun n hn => by cases hn⟩

theorem Reachable.inv (h : Reachable issued g) : g.Inv := h.inv_and_repositories.1

/-! ### Consistency -/

/-- The arcs by which a vertex is contained in others. -/
def containers (g : Atlas) (n : Nat) : List (Nat × Arc) :=
  (g.net.incoming n).filter fun a => a.2.edge.kind = .contains

/-- An index lists every symbol under its name, nothing twice and nothing else. -/
structure ListsSymbols (g : Atlas) (ix : Index String (List Nat)) (name : Vertex → String) :
    Prop where
  mem_iff : ∀ s n, n ∈ ix.list s ↔ ∃ v, g.net.vertex? n = some v ∧ v.isSymbol ∧ name v = s
  nodup : ∀ s, (ix.list s).Nodup
  ne_nil : ∀ s, ix.find? s ≠ some []
  keyed : ix.Keyed

/-- An index gives the one vertex of a kind with a path, for each path that has one. -/
structure LocatesAll (g : Atlas) (ix : Index (List Component) Nat) (kind : VertexKind) :
    Prop where
  find?_iff : ∀ key n, ix.find? key = some n ↔
    ∃ v, g.net.vertex? n = some v ∧ v.kind = kind ∧ v.path.components = key
  keyed : ix.Keyed

/-- The indexes describe the graph exactly, and its parts fit together. -/
structure Consistent (g : Atlas) : Prop where
  qualified : g.ListsSymbols g.qualified Vertex.name
  simple : g.ListsSymbols g.simple fun v => Dotted.lastSegment v.name
  files : g.LocatesAll g.files .file
  repositories : g.LocatesAll g.repositories .repository
  /-- A symbol is contained in one vertex, that of its file. -/
  symbol_container : ∀ n v, g.net.vertex? n = some v → v.isSymbol →
    ∃ a file, g.containers n = [a] ∧ g.net.vertex? a.2.source = some file ∧
      file.kind = .file ∧ file.path = v.path
  /-- A file is contained in one repository at most. -/
  file_container : ∀ n v, g.net.vertex? n = some v → v.kind = .file →
    g.containers n = [] ∨ ∃ a repository, g.containers n = [a] ∧
      g.net.vertex? a.2.source = some repository ∧ repository.kind = .repository
  /-- A dependency has one arc, which the index gives. -/
  linked : ∀ source target kind n, g.linked.find? (source, target, kind) = some n ↔
    ∃ a, g.net.arc? n = some a ∧ a.source = source ∧ a.target = target ∧
      a.edge.kind = .depends kind
  linked_keyed : g.linked.Keyed
  /-- A dependency leads to another vertex, which is a symbol. -/
  depends : ∀ n a kind, g.net.arc? n = some a → a.edge.kind = .depends kind →
    a.source ≠ a.target ∧ ∃ v, g.net.vertex? a.target = some v ∧ v.isSymbol
  /-- No arc hangs in the air. -/
  ends : ∀ n a, g.net.arc? n = some a →
    (g.net.vertex? a.source).isSome ∧ (g.net.vertex? a.target).isSome
  pending : ∀ d ∈ g.pending, (g.files.find? d.path.components).isSome
  entities : ∀ e ∈ g.entities, (g.files.find? e.1.components).isSome

theorem Inv.vertex?_eq_some_iff (h : g.Inv) {n : Nat} {v : Vertex} :
    g.net.vertex? n = some v ↔ (n, v) ∈ g.rows :=
  h.wf.vertices.get?_eq_some_iff

theorem Inv.arc?_eq_some_iff (h : g.Inv) {n : Nat} {a : Arc} :
    g.net.arc? n = some a ↔ (n, a) ∈ g.net.arcs.items :=
  h.wf.arcs.get?_eq_some_iff

theorem Inv.listsSymbols (h : g.Inv) {ix : Index String (List Nat)} {name : Vertex → String}
    (hix : Lists ix name g.rows) : g.ListsSymbols ix name where
  mem_iff s n := by
    simp only [h.vertex?_eq_some_iff]
    exact hix.mem_list
  nodup := hix.nodup_list h.wf.vertices.nodup
  ne_nil := hix.full
  keyed := hix.keyed

theorem Inv.locatesAll (h : g.Inv) {ix : Index (List Component) Nat} {kind : VertexKind}
    (hix : Locates ix kind g.rows) : g.LocatesAll ix kind where
  find?_iff key n := by
    simp only [h.vertex?_eq_some_iff]
    exact hix.find?_eq_some_iff
  keyed := hix.keyed

theorem containers_eq_nil_iff {n : Nat} : g.containers n = [] ↔ g.net.homes n = [] :=
  List.map_eq_nil_iff.symm

theorem containers_eq_singleton {n home : Nat} (h : g.net.homes n = [home]) :
    ∃ a, g.containers n = [a] ∧ a.2.source = home := by
  obtain ⟨a, ha, hsource⟩ := List.map_eq_singleton_iff.1 h
  exact ⟨a, ha, hsource⟩

theorem Inv.consistent (h : g.Inv) : g.Consistent where
  qualified := h.listsSymbols h.qualified
  simple := h.listsSymbols h.simple
  files := h.locatesAll h.files
  repositories := h.locatesAll h.repositories
  symbol_container n v hn hv := by
    obtain ⟨f, w, hhomes, hw, hkind, hpath⟩ :=
      (h.housed _ (h.vertex?_eq_some_iff.1 hn)).of_isSymbol hv
    obtain ⟨a, ha, hsource⟩ := containers_eq_singleton hhomes
    exact ⟨a, w, ha, hsource ▸ h.vertex?_eq_some_iff.2 hw, hkind, hpath⟩
  file_container n v hn hv := by
    have hhoused := h.housed _ (h.vertex?_eq_some_iff.1 hn)
    simp only [Housed, hv] at hhoused
    rcases hhoused with hnil | ⟨r, w, hhomes, hw, hkind⟩
    · exact Or.inl (containers_eq_nil_iff.2 hnil)
    · obtain ⟨a, ha, hsource⟩ := containers_eq_singleton hhomes
      exact Or.inr ⟨a, w, ha, hsource ▸ h.vertex?_eq_some_iff.2 hw, hkind⟩
  linked source target kind n := by
    simp only [h.linked.find?_iff, Arc.key?_eq_some_iff, Net.mem_links, h.arc?_eq_some_iff]
    constructor
    · rintro ⟨a, ⟨hmem, -⟩, hkey⟩
      exact ⟨a, hmem, hkey⟩
    · rintro ⟨a, hmem, hs, ht, hkind⟩
      exact ⟨a, ⟨hmem, by simp [hkind]⟩, hs, ht, hkind⟩
  linked_keyed := h.linked.keyed
  depends n a kind hn hkind := by
    obtain ⟨hne, -, v, hv, hsymbol⟩ :=
      h.links (n, a) (Net.mem_links.2 ⟨h.arc?_eq_some_iff.1 hn, by simp [hkind]⟩)
    exact ⟨hne, v, h.vertex?_eq_some_iff.2 hv, hsymbol⟩
  ends n a hn := by
    obtain ⟨hs, ht⟩ := h.wf.ends _ (h.arc?_eq_some_iff.1 hn)
    exact ⟨h.wf.vertices.isSome_get?_iff.2 hs, h.wf.vertices.isSome_get?_iff.2 ht⟩
  pending := h.pending
  entities := h.entities

/-- **A reachable atlas is consistent.** -/
theorem consistent_of_reachable (h : Reachable issued g) : g.Consistent := h.inv.consistent

/-- A file is replaced, so that numbers are given out again, and the atlas linked and loaded. -/
theorem consistent_of_reachable_replaced :
    let path : Path := ⟨"/r/a.cs"⟩
    let type (name : String) : Symbol :=
      { name, qualifiedName := "N." ++ name, kind := .type, startLine := 1, endLine := 9
        isExported := true, visibility := .everyone, signature := none }
    let call : Dependency :=
      { fromSymbol := "N.A", toSymbol := "B", kind := .calls, line := 3, confidence := .one }
    let found : Findings := { symbols := [type "A", type "B"], dependencies := [call] }
    let known := ((({} : Atlas).addRepository ⟨"/r"⟩).2.ingest (some 0) path found []).2.link
    let g := (known.ingest (some 0) path found []).2.link
    Reachable [0] g ∧ g.Storable ∧ Reachable [] (Snapshot.ofAtlas g).toAtlas ∧
      (Snapshot.ofAtlas g).toAtlas.linked.size = 1 ∧ (Snapshot.ofAtlas g).toAtlas.Consistent := by
  intro path type call found known g
  have hissued : ∀ n ∈ some 0, n ∈ [0] := by simp
  have hknown : Reachable [0] known :=
    .link (.ingest (some 0) path found [] (.addRepository ⟨"/r"⟩ .empty) hissued)
  have hg : Reachable [0] g := .link (.ingest (some 0) path found [] hknown hissued)
  have hstorable : g.Storable := by decide +kernel
  have hload : Reachable [] (Snapshot.ofAtlas g).toAtlas :=
    .reload hg hstorable (ofBytes_toBytes hstorable)
  exact ⟨hg, hstorable, hload, by decide +kernel, consistent_of_reachable hload⟩

end SymbolAtlas.Atlas
