import Mathlib.Tactic
import SymbolAtlas.Proofs.Graph.Reachable
import SymbolAtlas.Proofs.Graph.Renaming
import SymbolAtlas.Proofs.Snapshot.Truncation

/-!
# Storing and loading

Loading numbers the vertices and arcs of a snapshot by their positions (`net_toAtlas`), so storing
the loaded atlas gives the snapshot again (`Inv.ofAtlas_toAtlas`). Seen from the stored atlas, its
vertices and arcs are there under other numbers and in another order, neither of which matters to
what an atlas answers (`Inv.restores`).

* `restores_of_reachable` — a reachable atlas comes back from its stored form, and from nothing
  less.
-/

namespace SymbolAtlas

open Snapshot

variable {g : Atlas}

/-! ### Storing what was loaded -/

theorem net_foldl_restoreVertex (vs : List Vertex) (g : Atlas) :
    (vs.foldl restoreVertex g).net =
      { g.net with vertices := vs.foldl Pool.add g.net.vertices } := by
  induction vs generalizing g with
  | nil => rfl
  | cons v vs ih =>
    rw [List.foldl_cons, ih, net_restoreVertex]
    rfl

theorem net_foldl_restoreArc {count : Nat} {as : List (Nat × Nat × Edge)}
    (has : ∀ a ∈ as, a.1 < count ∧ a.2.1 < count) (g : Atlas) :
    (as.foldl (restoreArc count) g).net =
      { g.net with arcs := (as.map toArc).foldl Pool.add g.net.arcs } := by
  induction as generalizing g with
  | nil => rfl
  | cons a as ih =>
    obtain ⟨⟨hs, ht⟩, has⟩ := List.forall_mem_cons.1 has
    rw [List.foldl_cons, ih has, restoreArc_of_lt hs ht]
    rfl

/-- The vertices and arcs of a loaded atlas have their positions for numbers. -/
theorem net_toAtlas {s : Snapshot}
    (hs : ∀ a ∈ s.arcs, a.1 < s.vertices.length ∧ a.2.1 < s.vertices.length) :
    s.toAtlas.net =
      { vertices := s.vertices.foldl Pool.add {}
        arcs := (s.arcs.map toArc).foldl Pool.add {} } := by
  simp only [toAtlas]
  rw [net_foldl_restoreArc hs, net_foldl_restoreVertex]

theorem map_snd_swap_zipIdx {α : Type} (as : List α) :
    (as.zipIdx.map Prod.swap).map Prod.snd = as := by
  rw [List.map_map]
  exact List.zipIdx_map_fst 0 as

theorem toArc_injective : Function.Injective toArc := by
  rintro ⟨s, t, e⟩ ⟨s', t', e'⟩ h
  obtain ⟨rfl, rfl, rfl⟩ := Arc.mk.inj h
  rfl

namespace Atlas

/-- The vertices of a loaded atlas, with their numbers. -/
theorem Inv.numbered_toAtlas (h : g.Inv) :
    (ofAtlas g).toAtlas.net.vertices.numbered = (ofAtlas g).vertices.zipIdx.map Prod.swap := by
  rw [net_toAtlas h.ends_lt_length]
  exact Pool.numbered_foldl_add_empty _

/-- A vertex of a loaded atlas is stored at the place it was loaded from. -/
theorem Inv.place_toAtlas (h : g.Inv) {i : Nat} (hi : i < (ofAtlas g).vertices.length) :
    place (ofAtlas g).toAtlas i = i := by
  rw [place, h.numbered_toAtlas, List.map_map]
  have hrange : (ofAtlas g).vertices.zipIdx.map (Prod.fst ∘ Prod.swap) =
      List.range (ofAtlas g).vertices.length := by
    rw [List.range_eq_range', ← List.zipIdx_map_snd]
    rfl
  rw [hrange]
  have hidx := List.nodup_range.idxOf_getElem i (by simpa using hi)
  rwa [List.getElem_range] at hidx

/-- Storing a loaded atlas gives the snapshot that it was loaded from. -/
theorem Inv.ofAtlas_toAtlas (h : g.Inv) : ofAtlas (ofAtlas g).toAtlas = ofAtlas g := by
  have hvertices : (ofAtlas (ofAtlas g).toAtlas).vertices = (ofAtlas g).vertices := by
    change (ofAtlas g).toAtlas.net.vertices.numbered.map Prod.snd = _
    rw [h.numbered_toAtlas, map_snd_swap_zipIdx]
  have harcs : (ofAtlas (ofAtlas g).toAtlas).arcs = (ofAtlas g).arcs := by
    refine toArc_injective.list_map ?_
    have hnumbered : (ofAtlas g).toAtlas.net.arcs.numbered.map Prod.snd =
        (ofAtlas g).arcs.map toArc := by
      rw [net_toAtlas h.ends_lt_length, Pool.numbered_foldl_add_empty, map_snd_swap_zipIdx]
    rw [map_toArc_ofAtlas h.toAtlas_ofAtlas.wf]
    change (ofAtlas g).toAtlas.net.arcs.numbered.map (Arc.rename _ ∘ Prod.snd) = _
    rw [← List.map_map, hnumbered, List.map_map]
    refine List.map_congr_left fun a ha => ?_
    -- Both ends of the arc are positions, and these stay as they are.
    obtain ⟨hs, ht⟩ := h.ends_lt_length a ha
    simp only [Function.comp, toArc, Arc.rename, h.place_toAtlas hs, h.place_toAtlas ht]
  exact Snapshot.mk.injEq .. |>.mpr ⟨rfl, hvertices, harcs, rfl, rfl, rfl⟩

theorem Inv.toBytes_toAtlas (h : g.Inv) : (ofAtlas g).toAtlas.toBytes = g.toBytes := by
  rw [toBytes, h.ofAtlas_toAtlas, toBytes]

/-! ### The same vertices and arcs in another order -/

theorem Inv.rows_perm (h : g.Inv) :
    (ofAtlas g).toAtlas.rows.Perm (g.rows.map fun e => (place g e.1, e.2)) := by
  have hload := h.reloaded
  have hnodup : (g.rows.map fun e => (place g e.1, e.2)).Nodup := by
    refine h.wf.vertices.nodup.of_map.map_on ?_
    rintro ⟨n, v⟩ hn ⟨m, w⟩ hm heq
    obtain ⟨hplace, rfl⟩ := Prod.mk.inj heq
    rw [place_inj h.wf (Net.live_of_mem hn) hplace]
  rw [List.perm_ext_iff_of_nodup hload.wf.vertices.nodup.of_map hnodup]
  rintro ⟨i, v⟩
  rw [hload.mem_rows, List.mem_map]
  constructor
  · intro hi
    obtain ⟨n, hmem, rfl⟩ := exists_place_eq h.wf hi
    exact ⟨(n, v), hmem, rfl⟩
  · rintro ⟨⟨n, w⟩, hmem, heq⟩
    obtain ⟨rfl, rfl⟩ := Prod.mk.inj heq
    exact getElem?_place h.wf hmem

theorem Inv.links_perm (h : g.Inv) : ((ofAtlas g).toAtlas.net.links.map Prod.snd).Perm
    ((g.net.links.map Prod.snd).map (Arc.rename (place g))) := by
  have hlinks : ∀ net : Net, net.links.map Prod.snd =
      (net.arcs.items.map Prod.snd).filter fun a => a.edge.kind ≠ .contains := by
    intro net
    rw [List.filter_map]
    rfl
  rw [hlinks, hlinks]
  refine (h.reloaded.arcs.filter _).trans (List.Perm.of_eq ?_)
  rw [List.filter_map]
  rfl

theorem Inv.vertex?_place (h : g.Inv) {n : Nat} (hn : g.net.Live n) :
    (ofAtlas g).toAtlas.net.vertex? (place g n) = g.net.vertex? n := by
  obtain ⟨v, hv⟩ := hn.exists_mem
  have hload := h.toAtlas_ofAtlas
  have hmem := (h.reloaded.mem_rows _ _).2 (getElem?_place h.wf hv)
  rw [hload.vertex?_eq_some_iff.2 hmem, h.vertex?_eq_some_iff.2 hv]

/-- An index by name lists the same symbols. -/
theorem Inv.list_perm (h : g.Inv) (name : String) :
    ((ofAtlas g).toAtlas.qualified.list name).Perm ((g.qualified.list name).map (place g)) := by
  rw [h.reloaded.qualified.list_eq, h.qualified.list_eq, List.map_map]
  refine (((List.reverse_perm _).trans (h.rows_perm.filter _)).map Prod.fst).trans ?_
  rw [List.filter_map, List.map_map]
  exact (List.reverse_perm _).symm.map _

theorem Inv.live_of_mem_list (h : g.Inv) {name : String} {n : Nat}
    (hn : n ∈ g.qualified.list name) : g.net.Live n := by
  obtain ⟨v, hmem, -⟩ := h.qualified.mem_list.1 hn
  exact Net.live_of_mem hmem

theorem Inv.find_perm (h : g.Inv) (name : String) :
    ((ofAtlas g).toAtlas.find name).Perm (g.find name) := by
  refine ((h.list_perm name).filterMap _).trans (List.Perm.of_eq ?_)
  rw [List.filterMap_map]
  exact List.filterMap_congr fun n hn => h.vertex?_place (h.live_of_mem_list hn)

theorem Inv.neighbors_perm (h : g.Inv) {near far : Arc → Nat}
    (hnear : ∀ a, near (a.rename (place g)) = place g (near a))
    (hfar : ∀ a, far (a.rename (place g)) = place g (far a))
    (hlive : ∀ a ∈ g.net.links.map Prod.snd, g.net.Live (near a) ∧ g.net.Live (far a))
    (name : String) :
    ((ofAtlas g).toAtlas.neighbors near far name).Perm (g.neighbors near far name) := by
  rw [neighbors_eq_reached, neighbors_eq_reached]
  refine (reached_perm _ near far (h.list_perm name) h.links_perm).trans (List.Perm.of_eq ?_)
  refine reached_rename hnear hfar (fun a ha n _ => ?_) fun a ha => ?_
  · exact place_inj h.wf (hlive a ha).1
  · exact h.vertex?_place (hlive a ha).2

theorem Inv.live_of_mem_links (h : g.Inv) {a : Arc} (ha : a ∈ g.net.links.map Prod.snd) :
    g.net.Live a.source ∧ g.net.Live a.target := by
  obtain ⟨e, he, rfl⟩ := List.mem_map.1 ha
  exact h.wf.ends e (Net.mem_links.1 he).1

theorem Inv.census_toAtlas (h : g.Inv) : (ofAtlas g).toAtlas.census = g.census := by
  have hrows : ((ofAtlas g).toAtlas.rows.map Prod.snd).Perm (g.rows.map Prod.snd) := by
    refine (h.rows_perm.map Prod.snd).trans (List.Perm.of_eq ?_)
    rw [List.map_map]
    rfl
  have hlinks := h.links_perm.length_eq
  rw [List.length_map (f := Arc.rename _)] at hlinks
  have hedges : (ofAtlas g).toAtlas.census.dependencyEdges = g.census.dependencyEdges := by
    rw [h.toAtlas_ofAtlas.census_eq, h.census_eq]
    exact hlinks
  rw [Census.mk.injEq]
  exact ⟨hrows.countP_eq _, hrows.countP_eq _, hrows.countP_eq _, hedges, rfl, rfl⟩

/-- The atlas `g'` holds what `g` holds, answers like it up to order, and is stored like it. -/
structure Restores (g g' : Atlas) : Prop where
  toBytes : g'.toBytes = g.toBytes
  census : g'.census = g.census
  entities : g'.entities = g.entities
  find : ∀ name, (g'.find name).Perm (g.find name)
  dependenciesOf : ∀ name, (g'.dependenciesOf name).Perm (g.dependenciesOf name)
  dependentsOf : ∀ name, (g'.dependentsOf name).Perm (g.dependentsOf name)

theorem Inv.restores (h : g.Inv) : Restores g (ofAtlas g).toAtlas where
  toBytes := h.toBytes_toAtlas
  census := h.census_toAtlas
  entities := rfl
  find := h.find_perm
  dependenciesOf name := by
    rw [dependenciesOf_eq_neighbors, dependenciesOf_eq_neighbors]
    exact h.neighbors_perm (fun _ => rfl) (fun _ => rfl) (fun a ha => h.live_of_mem_links ha) name
  dependentsOf name := by
    rw [dependentsOf_eq_neighbors, dependentsOf_eq_neighbors]
    exact h.neighbors_perm (fun _ => rfl) (fun _ => rfl)
      (fun a ha => (h.live_of_mem_links ha).symm) name

variable {issued : List Nat}

/-- **A reachable atlas comes back from its stored form**, and no shorter part of that form can be
loaded. -/
theorem restores_of_reachable (h : Reachable issued g) (hstorable : g.Storable) :
    (∃ g', ofBytes g.toBytes = .ok g' ∧ Restores g g') ∧
      ∀ k < g.toBytes.length, ofBytes (g.toBytes.take k) = .error .malformedSnapshot :=
  ⟨⟨_, ofBytes_toBytes hstorable, h.inv.restores⟩, fun _ hk => ofBytes_take_toBytes hstorable hk⟩

/-- The first of two files is removed, so that the numbers in use begin after a gap. -/
theorem restores_of_reachable_gap :
    let method (name : String) : Symbol :=
      { name, qualifiedName := "N." ++ name, kind := .method, startLine := 1, endLine := 9
        isExported := true, visibility := .everyone, signature := some ("void " ++ name) }
    let call : Dependency :=
      { fromSymbol := "N.A", toSymbol := "B", kind := .calls, line := 3, confidence := .one }
    let found : Findings := { symbols := [method "A", method "B"], dependencies := [call] }
    let known := ((({} : Atlas).ingest none ⟨"a.cs"⟩ found []).2.ingest none ⟨"b.cs"⟩ found []).2
    let g := (known.removeFile ⟨"a.cs"⟩).link
    (Reachable [] g ∧ g.Storable ∧ g.net.vertices.free = [0, 1, 2] ∧ g.linked.size = 1) ∧
      (∃ g', ofBytes g.toBytes = .ok g' ∧ Restores g g') ∧
      ∀ k < g.toBytes.length, ofBytes (g.toBytes.take k) = .error .malformedSnapshot := by
  intro method call found known g
  have hissued : ∀ n ∈ (none : Option Nat), n ∈ ([] : List Nat) := by simp
  have hknown : Reachable [] known :=
    .ingest none ⟨"b.cs"⟩ found [] (.ingest none ⟨"a.cs"⟩ found [] .empty hissued) hissued
  have hg : Reachable [] g := .link (.removeFile ⟨"a.cs"⟩ hknown)
  have hstorable : g.Storable := by decide +kernel
  exact ⟨⟨hg, hstorable, by decide +kernel, by decide +kernel⟩, restores_of_reachable hg hstorable⟩

end Atlas

end SymbolAtlas
