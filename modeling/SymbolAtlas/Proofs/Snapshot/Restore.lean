import Mathlib.Tactic
import SymbolAtlas.Proofs.Graph.Linking
import SymbolAtlas.Proofs.Snapshot.Bytes

/-!
# Loading keeps the invariant

A loaded atlas has the vertices and arcs of the one that was stored, under other numbers: a vertex
gets its position among the numbers in use (`Snapshot.place`). The indexes are built anew, vertex by
vertex (`restored_foldl`) and arc by arc (`exists_foldl_restoreArc_eq`).

* `Inv.reloaded` says what the loaded atlas holds.
* `Inv.toAtlas_ofAtlas` says that it has the invariant.
-/

namespace SymbolAtlas

open Snapshot

variable {g : Atlas}

/-! ### Vertices -/

/-- Two vertices of a kind have different paths. -/
def Vertex.Apart (kind : VertexKind) (v w : Vertex) : Prop :=
  v.kind = kind → w.kind = kind → v.path.components ≠ w.path.components

theorem Vertex.Apart.symm {kind : VertexKind} {v w : Vertex} (h : v.Apart kind w) :
    w.Apart kind v :=
  fun hw hv heq => h hv hw heq.symm

theorem net_restoreVertex (g : Atlas) (v : Vertex) :
    (restoreVertex g v).net = g.net.addVertex v := by
  unfold restoreVertex
  cases v.kind <;> rfl

theorem Atlas.Indexed.restoreVertex (h : g.Indexed) {v : Vertex}
    (hfile : v.kind = .file → g.files.find? v.path.components = none)
    (hrepository : v.kind = .repository → g.repositories.find? v.path.components = none) :
    (restoreVertex g v).Indexed := by
  unfold Snapshot.restoreVertex
  cases hkind : v.kind with
  | repository =>
    have hsymbol : v.isSymbol = false := by simp [Vertex.isSymbol, hkind]
    exact
      { wf := h.wf.addVertex v
        qualified := h.qualified.cons_of_not_isSymbol hsymbol
        simple := h.simple.cons_of_not_isSymbol hsymbol
        files := h.files.cons_of_none (Vertex.pathAs?_of_ne (by simp [hkind]))
        repositories := h.repositories.insert (Vertex.pathAs?_eq_some_iff.2 ⟨hkind, rfl⟩)
          (hrepository hkind) }
  | file =>
    have hsymbol : v.isSymbol = false := by simp [Vertex.isSymbol, hkind]
    exact
      { wf := h.wf.addVertex v
        qualified := h.qualified.cons_of_not_isSymbol hsymbol
        simple := h.simple.cons_of_not_isSymbol hsymbol
        files := h.files.insert (Vertex.pathAs?_eq_some_iff.2 ⟨hkind, rfl⟩) (hfile hkind)
        repositories := h.repositories.cons_of_none (Vertex.pathAs?_of_ne (by simp [hkind])) }
  | symbol kind =>
    have hsymbol : v.isSymbol := Vertex.isSymbol_iff.2 ⟨kind, hkind⟩
    exact
      { wf := h.wf.addVertex v
        qualified := h.qualified.add hsymbol
        simple := h.simple.add hsymbol
        files := h.files.cons_of_none (Vertex.pathAs?_of_ne (by simp [hkind]))
        repositories := h.repositories.cons_of_none (Vertex.pathAs?_of_ne (by simp [hkind])) }

theorem Vertex.find?_eq_none_of_apart {ix : Index (List Component) Nat} {kind : VertexKind}
    {rows : List (Nat × Vertex)} (h : Locates ix kind rows) {v : Vertex} (hkind : v.kind = kind)
    (hapart : ∀ e ∈ rows, e.2.Apart kind v) : ix.find? v.path.components = none := by
  refine h.find?_eq_none fun e he hkey => ?_
  obtain ⟨hekind, hpath⟩ := Vertex.pathAs?_eq_some_iff.1 hkey
  exact hapart e he hekind hkind hpath

/-- An atlas with the given vertices, each under its position, and without arcs. -/
structure Restored (vs : List Vertex) (g : Atlas) : Prop extends g.Indexed where
  free : g.net.vertices.free = []
  bound : g.net.vertices.bound = vs.length
  mem_rows : ∀ i v, (i, v) ∈ g.rows ↔ vs[i]? = some v
  arcs : g.net.arcs = {}
  linked : g.linked = {}

theorem restored_foldl {vs : List Vertex} (hfiles : vs.Pairwise (Vertex.Apart .file))
    (hrepositories : vs.Pairwise (Vertex.Apart .repository)) :
    Restored vs (vs.foldl restoreVertex {}) := by
  induction vs using List.reverseRecOn with
  | nil =>
    exact
      { Atlas.inv_empty.toIndexed with
        free := rfl
        bound := rfl
        mem_rows := by simp [Atlas.rows]
        arcs := rfl
        linked := rfl }
  | append_singleton vs v ih =>
    obtain ⟨hvs, -, hfile⟩ := List.pairwise_append.1 hfiles
    obtain ⟨hvs', -, hrepository⟩ := List.pairwise_append.1 hrepositories
    have hg := ih hvs hvs'
    rw [List.foldl_append, List.foldl_cons, List.foldl_nil]
    generalize vs.foldl restoreVertex {} = g at hg
    have hnet := net_restoreVertex g v
    have hnext : g.net.vertices.next = vs.length := by simp [Pool.next, hg.free, hg.bound]
    -- No earlier vertex has the path of this one, so the indexes by path do not have it yet.
    have hindexed : (restoreVertex g v).Indexed := by
      have hmem : ∀ e ∈ g.rows, e.2 ∈ vs := fun e he =>
        List.mem_of_getElem? ((hg.mem_rows e.1 e.2).1 he)
      refine hg.toIndexed.restoreVertex (fun hkind => ?_) fun hkind => ?_
      · exact Vertex.find?_eq_none_of_apart hg.files hkind fun e he =>
          hfile e.2 (hmem e he) v (List.mem_singleton_self v)
      · exact Vertex.find?_eq_none_of_apart hg.repositories hkind fun e he =>
          hrepository e.2 (hmem e he) v (List.mem_singleton_self v)
    refine
      { hindexed with
        free := by simp [hnet, Net.addVertex, Pool.add, hg.free]
        bound := by simp [hnet, Net.addVertex, Pool.add, hg.free, hg.bound]
        mem_rows := ?_
        arcs := by rw [hnet, Net.arcs_addVertex, hg.arcs]
        linked := ?_ }
    · -- Nothing was freed, so the next number is the next position.
      intro i w
      rw [Atlas.rows, hnet, Net.items_addVertex, List.mem_cons, hg.mem_rows, hnext, Prod.mk.injEq]
      rcases lt_trichotomy i vs.length with hlt | rfl | hgt
      · simp [List.getElem?_append_left hlt, hlt.ne]
      · simp [eq_comm]
      · simp only [hgt.ne', false_and, false_or]
        rw [List.getElem?_eq_none hgt.le, List.getElem?_eq_none (by simpa using hgt)]
    · rw [← hg.linked]
      unfold restoreVertex
      cases v.kind <;> rfl

/-! ### Arcs -/

/-- No two of the arcs stand for one dependency. -/
def Apart (arcs : List Arc) : Prop :=
  arcs.Pairwise fun a b => ∀ key, a.key? = some key → b.key? ≠ some key

theorem Apart.perm {arcs others : List Arc} (h : Apart arcs) (hperm : arcs.Perm others) :
    Apart others :=
  hperm.pairwise h fun hab key hb ha => hab key ha hb

/-- The arc that a snapshot holds. -/
def toArc (a : Nat × Nat × Edge) : Arc := ⟨a.1, a.2.1, a.2.2⟩

theorem restoreArc_of_lt {count : Nat} {a : Nat × Nat × Edge} (hs : a.1 < count)
    (ht : a.2.1 < count) (g : Atlas) :
    restoreArc count g a = { g with
      net := g.net.addArc a.1 a.2.1 a.2.2
      linked := ((toArc a).key?.map fun key => g.linked.insert key g.net.arcs.next).getD g.linked } := by
  obtain ⟨source, target, edge⟩ := a
  rw [restoreArc, if_pos ⟨hs, ht⟩]
  cases hkind : edge.dependency? <;> simp only [toArc, Arc.key?, hkind] <;> rfl

/-- An arc of containment leaves the index of dependencies as it is. -/
theorem Joins.addArc {net : Net} {linked : Index (Nat × Nat × DependencyKind) Nat}
    (h : Joins linked net.links) (a : Nat × Nat × Edge)
    (ha : ∀ b ∈ net.arcs.items, ∀ key, (toArc a).key? = some key → b.2.key? ≠ some key) :
    Joins (((toArc a).key?.map fun key => linked.insert key net.arcs.next).getD linked)
      (net.addArc a.1 a.2.1 a.2.2).links := by
  by_cases hkind : a.2.2.kind = .contains
  · have hkey : (toArc a).key? = none := by simp [toArc, Arc.key?, Edge.dependency?, hkind]
    rw [hkey, Net.links, Net.items_addArc, List.filter_cons_of_neg (by simp [hkind])]
    exact h
  · have hsome : (toArc a).key?.isSome := Arc.isSome_key?_iff.2 hkind
    obtain ⟨key, hkey⟩ := Option.isSome_iff_exists.1 hsome
    rw [hkey, Net.links_addArc_of_ne _ _ _ hkind]
    exact h.insert hkey (h.find?_eq_none fun b hb => ha b (Net.mem_links.1 hb).1 key hkey)

/-- Restoring arcs adds them, newest first, and keeps their index. -/
theorem exists_foldl_restoreArc_eq {count : Nat} {as : List (Nat × Nat × Edge)}
    (has : ∀ a ∈ as, a.1 < count ∧ a.2.1 < count) (g : Atlas) (hwf : g.net.WF)
    (hlive : ∀ n < count, g.net.Live n) (hlinked : Joins g.linked g.net.links)
    (hapart : Apart ((as.map toArc).reverse ++ g.net.arcs.items.map Prod.snd)) :
    ∃ net linked, as.foldl (restoreArc count) g = { g with net, linked } ∧ net.WF ∧
      net.vertices = g.net.vertices ∧ Joins linked net.links ∧
      net.arcs.items.map Prod.snd = (as.map toArc).reverse ++ g.net.arcs.items.map Prod.snd := by
  induction as generalizing g with
  | nil => exact ⟨g.net, g.linked, rfl, hwf, rfl, hlinked, rfl⟩
  | cons a as ih =>
    obtain ⟨⟨hs, ht⟩, has⟩ := List.forall_mem_cons.1 has
    rw [List.map_cons, List.reverse_cons, List.append_assoc, List.singleton_append] at hapart
    have hnew := (List.pairwise_cons.1 (List.pairwise_append.1 hapart).2.1).1
    have hjoins := hlinked.addArc a fun b hb => hnew b.2 (List.mem_map_of_mem hb)
    rw [List.foldl_cons, restoreArc_of_lt hs ht]
    obtain ⟨net, linked, heq, hwf', hvertices, hlinked', hitems⟩ := ih has
      { g with
        net := g.net.addArc a.1 a.2.1 a.2.2
        linked := ((toArc a).key?.map fun key => g.linked.insert key g.net.arcs.next).getD g.linked }
      (hwf.addArc (hlive _ hs) (hlive _ ht) a.2.2) hlive hjoins hapart
    refine ⟨net, linked, heq, hwf', hvertices, hlinked', ?_⟩
    rw [hitems, List.map_cons, List.reverse_cons, List.append_assoc]
    rfl

/-! ### Places -/

namespace Snapshot

/-- The position of a vertex in the snapshot. -/
def place (g : Atlas) (n : Nat) : Nat := (g.net.vertices.numbered.map Prod.fst).idxOf n

theorem mem_numbers (h : g.net.WF) {n : Nat} :
    n ∈ g.net.vertices.numbered.map Prod.fst ↔ g.net.Live n :=
  (h.vertices.numbered_perm.map Prod.fst).mem_iff

theorem place_inj (h : g.net.WF) {n m : Nat} (hn : g.net.Live n) (heq : place g n = place g m) :
    n = m :=
  (List.idxOf_inj ((mem_numbers h).2 hn)).1 heq

theorem place_lt (h : g.net.WF) {n : Nat} (hn : g.net.Live n) :
    place g n < (ofAtlas g).vertices.length := by
  have hlt := List.idxOf_lt_length_iff.2 ((mem_numbers h).2 hn)
  simpa [place, ofAtlas] using hlt

theorem getElem?_place (h : g.net.WF) {n : Nat} {v : Vertex} (hmem : (n, v) ∈ g.rows) :
    (ofAtlas g).vertices[place g n]? = some v := by
  have hlt := List.idxOf_lt_length_iff.2 ((mem_numbers h).2 (Net.live_of_mem hmem))
  have hnumber := List.getElem_idxOf hlt
  rw [List.length_map] at hlt
  rw [List.getElem_map] at hnumber
  have hrow : g.net.vertices.numbered[place g n] ∈ g.rows :=
    (Pool.mem_numbered h.vertices).1 (List.getElem_mem hlt)
  have hpair := List.inj_on_of_nodup_map h.vertices.nodup hrow hmem hnumber
  have hget : g.net.vertices.numbered[place g n]? = some (n, v) :=
    List.getElem?_eq_some_iff.2 ⟨hlt, hpair⟩
  change (g.net.vertices.numbered.map Prod.snd)[place g n]? = some v
  rw [List.getElem?_map, hget]
  rfl

theorem exists_place_eq (h : g.net.WF) {i : Nat} {v : Vertex}
    (hi : (ofAtlas g).vertices[i]? = some v) : ∃ n, (n, v) ∈ g.rows ∧ place g n = i := by
  change (g.net.vertices.numbered.map Prod.snd)[i]? = some v at hi
  rw [List.getElem?_map, Option.map_eq_some_iff] at hi
  obtain ⟨⟨n, w⟩, hget, rfl⟩ := hi
  refine ⟨n, (Pool.mem_numbered h.vertices).1 (List.mem_of_getElem? hget), ?_⟩
  obtain ⟨hlt, hget⟩ := List.getElem?_eq_some_iff.1 hget
  have hidx := (Pool.nodup_numbered g.net.vertices).idxOf_getElem i (by simpa using hlt)
  rwa [List.getElem_map, hget] at hidx

/-- Every arc is stored, by the places of its ends. -/
theorem map_toArc_ofAtlas (h : g.net.WF) :
    (ofAtlas g).arcs.map toArc = g.net.arcs.numbered.map fun a => a.2.rename (place g) := by
  have hposition : ∀ {n}, g.net.Live n →
      (g.net.vertices.numbered.map Prod.fst).idxOf? n = some (place g n) := by
    intro n hn
    have hmem := (mem_numbers h).2 hn
    rw [place, List.idxOf_eq_getD_idxOf?]
    cases hidx : (g.net.vertices.numbered.map Prod.fst).idxOf? n with
    | none => exact absurd hmem (List.idxOf?_eq_none_iff.1 hidx)
    | some i => rfl
  have harcs : (ofAtlas g).arcs = g.net.arcs.numbered.map fun a =>
      (place g a.2.source, place g a.2.target, a.2.edge) := by
    rw [← List.filterMap_eq_map]
    refine List.filterMap_congr fun a ha => ?_
    obtain ⟨hs, ht⟩ := h.ends a ((Pool.mem_numbered h.arcs).1 ha)
    simp only [hposition hs, hposition ht]
    rfl
  rw [harcs, List.map_map]
  rfl

end Snapshot

/-! ### The loaded atlas -/

/-- The vertices of a kind in an atlas have different paths. -/
theorem Locates.pairwise_apart {ix : Index (List Component) Nat} {kind : VertexKind}
    {vs : List (Nat × Vertex)} (h : Locates ix kind vs) (hvs : (vs.map Prod.fst).Nodup) :
    (vs.map Prod.snd).Pairwise (Vertex.Apart kind) := by
  rw [List.pairwise_map]
  refine (List.pairwise_map.1 hvs).imp_of_mem ?_
  intro a b ha hb hne hakind hbkind hpath
  have hafind := h.find?_eq_some_iff.2 ⟨a.2, ha, hakind, hpath⟩
  have hbfind := h.find?_eq_some_iff.2 ⟨b.2, hb, hbkind, rfl⟩
  rw [hafind, Option.some.injEq] at hbfind
  exact hne hbfind

theorem pairwise_apart_ofAtlas {kind : VertexKind} {ix : Index (List Component) Nat}
    (hwf : g.net.WF) (h : Locates ix kind g.rows) :
    (ofAtlas g).vertices.Pairwise (Vertex.Apart kind) :=
  (hwf.vertices.numbered_perm.map Prod.snd).symm.pairwise
    (h.pairwise_apart hwf.vertices.nodup) Vertex.Apart.symm

theorem Atlas.Inv.apart_rename (h : g.Inv) :
    Apart ((g.net.arcs.items.map Prod.snd).map (Arc.rename (place g))) := by
  rw [Apart, List.map_map, List.pairwise_map]
  refine (List.pairwise_map.1 h.wf.arcs.nodup).imp_of_mem ?_
  rintro a b ha hb hne ⟨source, target, kind⟩ hakey hbkey
  obtain ⟨hs, ht, hkind⟩ := Arc.key?_rename_eq_some_iff.1 hakey
  obtain ⟨hs', ht', hkind'⟩ := Arc.key?_rename_eq_some_iff.1 hbkey
  have hsource := place_inj h.wf (h.wf.ends a ha).1 (hs.trans hs'.symm)
  have htarget := place_inj h.wf (h.wf.ends a ha).2 (ht.trans ht'.symm)
  have hfind := (h.linked.find?_iff (b.2.source, b.2.target, kind) a.1).2
    ⟨a.2, Net.mem_links.2 ⟨ha, by simp [hkind]⟩, Arc.key?_eq_some_iff.2 ⟨hsource, htarget, hkind⟩⟩
  rw [(h.linked.find?_iff _ b.1).2
    ⟨b.2, Net.mem_links.2 ⟨hb, by simp [hkind']⟩, Arc.key?_eq_some_iff.2 ⟨rfl, rfl, hkind'⟩⟩,
    Option.some.injEq] at hfind
  exact hne hfind.symm

theorem Housed.rename {vs ws : List (Nat × Vertex)} {v : Vertex} {homes : List Nat}
    (h : Housed vs v homes) {f : Nat → Nat} (hf : ∀ e ∈ vs, (f e.1, e.2) ∈ ws) :
    Housed ws v (homes.map f) := by
  unfold Housed at h ⊢
  split at h
  · rw [h]
    rfl
  · rcases h with rfl | ⟨n, w, rfl, hmem, hw⟩
    · exact Or.inl rfl
    · exact Or.inr ⟨f n, w, rfl, hf _ hmem, hw⟩
  · obtain ⟨n, w, rfl, hmem, hw⟩ := h
    exact ⟨f n, w, rfl, hf _ hmem, hw⟩

/-- A vertex has at most one home, so their order does not matter. -/
theorem Housed.perm {vs : List (Nat × Vertex)} {v : Vertex} {homes others : List Nat}
    (h : Housed vs v homes) (hperm : others.Perm homes) : Housed vs v others := by
  have heq : others = homes := by
    unfold Housed at h
    split at h
    · subst h
      exact hperm.eq_nil
    · rcases h with rfl | ⟨n, w, rfl, -⟩
      · exact hperm.eq_nil
      · exact List.perm_singleton.1 hperm
    · obtain ⟨n, w, rfl, -⟩ := h
      exact List.perm_singleton.1 hperm
  rwa [heq]

theorem Arc.Proper.rename {vs ws : List (Nat × Vertex)} {a : Arc} (h : a.Proper vs)
    {f : Nat → Nat} (hf : ∀ e ∈ vs, (f e.1, e.2) ∈ ws)
    (hinj : f a.source = f a.target → a.source = a.target) : (a.rename f).Proper ws := by
  obtain ⟨hne, ⟨v, hv, hkind⟩, w, hw, hsymbol⟩ := h
  exact ⟨fun heq => hne (hinj heq), ⟨v, hf _ hv, hkind⟩, w, hf _ hw, hsymbol⟩

theorem Maps.isSome_find?_rename {κ α : Type} [DecidableEq κ] {ix jx : Index κ Nat}
    {key? : α → Option κ} {vs ws : List (Nat × α)} (h : Maps ix key? vs) (h' : Maps jx key? ws)
    {f : Nat → Nat} (hf : ∀ e ∈ vs, (f e.1, e.2) ∈ ws) {key : κ}
    (hkey : (ix.find? key).isSome) : (jx.find? key).isSome := by
  obtain ⟨n, hn⟩ := Option.isSome_iff_exists.1 hkey
  obtain ⟨a, hmem, ha⟩ := (h.find?_iff _ _).1 hn
  rw [(h'.find?_iff key (f n)).2 ⟨a, hf _ hmem, ha⟩]
  rfl

namespace Atlas

/-- The atlas `g'` is what is loaded from the stored form of `g`. -/
structure Reloaded (g g' : Atlas) : Prop extends g'.Indexed where
  mem_rows : ∀ i v, (i, v) ∈ g'.rows ↔ (ofAtlas g).vertices[i]? = some v
  arcs : (g'.net.arcs.items.map Prod.snd).Perm
    ((g.net.arcs.items.map Prod.snd).map (Arc.rename (place g)))
  linked : Joins g'.linked g'.net.links
  pending : g'.pending = g.pending
  entities : g'.entities = g.entities

theorem Inv.map_toArc_perm (h : g.Inv) : ((ofAtlas g).arcs.map toArc).Perm
    ((g.net.arcs.items.map Prod.snd).map (Arc.rename (place g))) := by
  rw [map_toArc_ofAtlas h.wf, List.map_map]
  exact h.wf.arcs.numbered_perm.map _

theorem Inv.ends_lt_length (h : g.Inv) : ∀ a ∈ (ofAtlas g).arcs,
    a.1 < (ofAtlas g).vertices.length ∧ a.2.1 < (ofAtlas g).vertices.length := by
  intro a ha
  obtain ⟨b, hb, heq⟩ := List.mem_map.1 (h.map_toArc_perm.mem_iff.1 (List.mem_map_of_mem ha))
  obtain ⟨e, he, rfl⟩ := List.mem_map.1 hb
  obtain ⟨hs, ht⟩ := h.wf.ends e he
  rw [show a.1 = (toArc a).source from rfl, show a.2.1 = (toArc a).target from rfl, ← heq]
  exact ⟨place_lt h.wf hs, place_lt h.wf ht⟩

theorem Inv.reloaded (h : g.Inv) : Reloaded g (ofAtlas g).toAtlas := by
  have hrestored := restored_foldl (pairwise_apart_ofAtlas h.wf h.files)
    (pairwise_apart_ofAtlas h.wf h.repositories)
  simp only [Snapshot.toAtlas]
  generalize (ofAtlas g).vertices.foldl restoreVertex {} = g₀ at hrestored
  have hlive : ∀ n < (ofAtlas g).vertices.length, g₀.net.Live n := fun n hn =>
    Net.live_of_mem ((hrestored.mem_rows n _).2 (List.getElem?_eq_getElem hn))
  have hlinked : Joins g₀.linked g₀.net.links := by
    rw [hrestored.linked, Net.links, hrestored.arcs]
    exact Maps.empty
  have hapart : Apart (((ofAtlas g).arcs.map toArc).reverse ++ g₀.net.arcs.items.map Prod.snd) := by
    rw [hrestored.arcs, List.map_nil, List.append_nil]
    exact h.apart_rename.perm (h.map_toArc_perm.symm.trans (List.reverse_perm _).symm)
  obtain ⟨net, linked, heq, hwf, hvertices, hlinked, hitems⟩ :=
    exists_foldl_restoreArc_eq h.ends_lt_length g₀ hrestored.wf hlive hlinked hapart
  simp only [heq]
  obtain ⟨vertices, arcs⟩ := net
  obtain rfl : vertices = g₀.net.vertices := hvertices
  refine
    { hrestored.toIndexed with
      wf := hwf
      mem_rows := hrestored.mem_rows
      arcs := ?_
      linked := hlinked
      pending := rfl
      entities := rfl }
  rw [hitems, hrestored.arcs, List.map_nil, List.append_nil]
  exact (List.reverse_perm _).trans h.map_toArc_perm

theorem Inv.homes_perm (h : g.Inv) {net : Net}
    (harcs : (net.arcs.items.map Prod.snd).Perm
      ((g.net.arcs.items.map Prod.snd).map (Arc.rename (place g)))) (n : Nat) :
    (net.homes (place g n)).Perm ((g.net.homes n).map (place g)) := by
  rw [Net.homes_eq, Net.homes_eq]
  refine ((harcs.filter _).map Arc.source).trans (List.Perm.of_eq ?_)
  rw [List.filter_map, List.map_map, List.map_map]
  refine congrArg (List.map (place g ∘ Arc.source)) (List.filter_congr fun a ha => ?_)
  obtain ⟨e, he, rfl⟩ := List.mem_map.1 ha
  have htarget : place g e.2.target = place g n ↔ e.2.target = n :=
    ⟨place_inj h.wf (h.wf.ends e he).2, fun heq => by rw [heq]⟩
  exact decide_eq_decide.2 (and_congr_right fun _ => htarget)

/-- A loaded atlas has the invariant if the stored one has it. -/
theorem Inv.toAtlas_ofAtlas (h : g.Inv) : (ofAtlas g).toAtlas.Inv := by
  have hload := h.reloaded
  have hrow : ∀ e ∈ g.rows, (place g e.1, e.2) ∈ (ofAtlas g).toAtlas.rows := fun e he =>
    (hload.mem_rows _ _).2 (getElem?_place h.wf he)
  refine
    { hload.toIndexed with
      housed := ?_
      linked := hload.linked
      links := ?_
      pending := ?_
      entities := ?_ }
  · rintro ⟨i, v⟩ he
    obtain ⟨n, hn, rfl⟩ := exists_place_eq h.wf ((hload.mem_rows i v).1 he)
    exact ((h.housed _ hn).rename hrow).perm (h.homes_perm hload.arcs n)
  · intro a ha
    obtain ⟨hmem, hkind⟩ := Net.mem_links.1 ha
    obtain ⟨b, hb, heq⟩ := List.mem_map.1 (hload.arcs.mem_iff.1 (List.mem_map_of_mem hmem))
    obtain ⟨e, he, rfl⟩ := List.mem_map.1 hb
    rw [← heq] at hkind ⊢
    exact (h.links e (Net.mem_links.2 ⟨he, hkind⟩)).rename hrow
      (place_inj h.wf (h.wf.ends e he).1)
  · rw [hload.pending]
    exact fun d hd => h.files.isSome_find?_rename hload.files hrow (h.pending d hd)
  · rw [hload.entities]
    exact fun e he => h.files.isSome_find?_rename hload.files hrow (h.entities e he)

end Atlas

end SymbolAtlas
