import Mathlib.Tactic
import SymbolAtlas.Proofs.Snapshot.RoundTrip

/-!
# Linking a loaded atlas

Where several symbols fit a dependency equally well, linking takes the first in the list under their
name. In an atlas that was filled step by step the lists are in the order in which the symbols came.
In a loaded one they are in the order of the numbers that the symbols had, which is another order
once the number of a removed symbol has been given to a later one.

* `link_ofBytes_toBytes` — a loaded atlas links like the stored one with its lists in the order of
  numbers (`Atlas.byNumber`), hence like the stored one itself if its lists ascend.
* `link_ofBytes_toBytes_reused` — where they do not, linking may join other symbols after loading.
-/

namespace SymbolAtlas

open Snapshot

/-! ### Sorted indexes -/

namespace Index

variable {κ : Type} [DecidableEq κ]

/-- The index with each of its lists in ascending order. -/
def sorted (ix : Index κ (List Nat)) : Index κ (List Nat) :=
  ⟨ix.entries.map fun e => (e.1, e.2.mergeSort (· ≤ ·))⟩

theorem find?_sorted (ix : Index κ (List Nat)) (key : κ) :
    ix.sorted.find? key = (ix.find? key).map fun items => items.mergeSort (· ≤ ·) := by
  simp only [find?, sorted, List.find?_map, Option.map_map]
  rfl

theorem list_sorted (ix : Index κ (List Nat)) (key : κ) :
    ix.sorted.list key = (ix.list key).mergeSort (· ≤ ·) := by
  rw [list, find?_sorted, list]
  cases ix.find? key <;> simp

omit [DecidableEq κ] in
theorem Keyed.sorted {ix : Index κ (List Nat)} (h : ix.Keyed) : ix.sorted.Keyed := by
  rw [Keyed, Index.sorted, List.map_map]
  exact h

theorem Full.sorted {ix : Index κ (List Nat)} (h : ix.Full) : ix.sorted.Full := by
  intro key hkey
  rw [find?_sorted, Option.map_eq_some_iff] at hkey
  obtain ⟨items, hitems, hnil⟩ := hkey
  have hperm := List.mergeSort_perm items (· ≤ ·)
  rw [hnil] at hperm
  exact h key (hperm.nil_eq ▸ hitems)

/-- The lists of the index ascend. -/
def Ascending (ix : Index κ (List Nat)) : Prop := ∀ e ∈ ix.entries, e.2.Pairwise (· < ·)

instance (ix : Index κ (List Nat)) : Decidable ix.Ascending :=
  inferInstanceAs (Decidable (∀ e ∈ ix.entries, e.2.Pairwise (· < ·)))

omit [DecidableEq κ] in
theorem Ascending.sorted_eq {ix : Index κ (List Nat)} (h : ix.Ascending) : ix.sorted = ix := by
  obtain ⟨entries⟩ := ix
  rw [Index.sorted, Index.mk.injEq]
  refine (List.map_congr_left fun e he => ?_).trans (List.map_id entries)
  have hle : e.2.Pairwise fun a b => decide (a ≤ b) = true :=
    (h e he).imp fun hlt => decide_eq_true hlt.le
  rw [List.mergeSort_of_pairwise hle]
  rfl

end Index

theorem pairwise_symbolsNamed {vs : List (Nat × Vertex)} (hvs : (vs.map Prod.fst).Pairwise (· > ·))
    (name : Vertex → String) (s : String) :
    ((symbolsNamed vs name s).map Prod.fst).Pairwise (· < ·) := by
  rw [symbolsNamed, List.map_reverse, List.pairwise_reverse]
  exact hvs.sublist (List.filter_sublist.map Prod.fst)

theorem Lists.ascending {ix : Index String (List Nat)} {name : Vertex → String}
    {vs : List (Nat × Vertex)} (h : Lists ix name vs) (hvs : (vs.map Prod.fst).Pairwise (· > ·)) :
    ix.Ascending := by
  intro e he
  have hlist : ix.list e.1 = e.2 := by
    rw [Index.list, h.keyed.find?_eq_some_iff.2 he]
    rfl
  rw [← hlist, h.list_eq]
  exact pairwise_symbolsNamed hvs name e.1

/-- Vertices in the order of their numbers are listed by the sorted index. -/
theorem Lists.sorted {ix : Index String (List Nat)} {name : Vertex → String}
    {vs ws : List (Nat × Vertex)} (h : Lists ix name vs) (hperm : ws.Perm vs)
    (hws : (ws.map Prod.fst).Pairwise (· > ·)) : Lists ix.sorted name ws where
  keyed := h.keyed.sorted
  full := h.full.sorted
  list_eq s := by
    rw [Index.list_sorted, h.list_eq]
    have hsort := (pairwise_symbolsNamed hws name s).imp le_of_lt
    have hnamed : (symbolsNamed vs name s).Perm (symbolsNamed ws name s) :=
      (List.reverse_perm _).trans ((hperm.symm.filter _).trans (List.reverse_perm _).symm)
    refine List.Perm.eq_of_pairwise' (r := (· ≤ ·)) ?_ hsort
      ((List.mergeSort_perm _ _).trans (hnamed.map Prod.fst))
    exact List.pairwise_mergeSort' (· ≤ ·) _

theorem Maps.perm {κ α : Type} [DecidableEq κ] {ix : Index κ Nat} {key? : α → Option κ}
    {items others : List (Nat × α)} (h : Maps ix key? items) (hperm : others.Perm items) :
    Maps ix key? others where
  keyed := h.keyed
  find?_iff key n := by simp only [h.find?_iff, hperm.mem_iff]

theorem Pool.WF.reorder {α : Type} {p : Pool α} (h : p.WF) {items : List (Nat × α)}
    (hperm : items.Perm p.items) : WF { p with items } where
  nodup := (hperm.map Prod.fst).nodup_iff.2 h.nodup
  lt_bound e he := h.lt_bound e (hperm.mem_iff.1 he)
  free_nodup := h.free_nodup
  free_lt_bound := h.free_lt_bound
  not_mem_free e he := h.not_mem_free e (hperm.mem_iff.1 he)

namespace Atlas

variable {g : Atlas}

/-! ### Vertices in another order -/

/-- The atlas with another pool of vertices. -/
def withVertices (g : Atlas) (vertices : Pool Vertex) : Atlas :=
  { g with net := { g.net with vertices } }

section

variable {vertices : Pool Vertex}

theorem ends?_withVertices (hget : ∀ n, vertices.get? n = g.net.vertices.get? n) (d : Pending) :
    (g.withVertices vertices).ends? d = g.ends? d := by
  have hprefer : ∀ path candidates,
      (g.withVertices vertices).preferFile path candidates = g.preferFile path candidates := by
    intro path candidates
    simp only [preferFile, withVertices, Net.vertex?, hget]
  have hending : ∀ target, (g.withVertices vertices).endingIn target = g.endingIn target := by
    intro target
    simp only [endingIn, withVertices, Net.vertex?, hget]
  simp only [ends?, source?, target?, named?, hprefer, hending]
  rfl

theorem connect_withVertices (source target : Nat) (d : Pending) :
    (g.withVertices vertices).connect source target d =
      (g.connect source target d).withVertices vertices := by
  simp only [connect, withVertices, Net.arc?]
  split <;> rfl

theorem linkOne_withVertices (hget : ∀ n, vertices.get? n = g.net.vertices.get? n) (d : Pending) :
    (g.withVertices vertices).linkOne d = (g.linkOne d).withVertices vertices := by
  simp only [linkOne, ends?_withVertices hget]
  cases g.ends? d with
  | none => rfl
  | some ends => exact connect_withVertices ends.1 ends.2 d

theorem foldl_linkOne_withVertices (hget : ∀ n, vertices.get? n = g.net.vertices.get? n)
    (ds : List Pending) :
    ds.foldl linkOne (g.withVertices vertices) = (ds.foldl linkOne g).withVertices vertices := by
  induction ds generalizing g with
  | nil => rfl
  | cons d ds ih =>
    obtain ⟨arcs, linked, unresolved, heq⟩ := exists_linkOne_eq g d
    rw [List.foldl_cons, List.foldl_cons, linkOne_withVertices hget, ih]
    rw [heq]
    exact hget

/-- Linking reads the vertices only by looking them up. -/
theorem link_withVertices (hget : ∀ n, vertices.get? n = g.net.vertices.get? n) :
    (g.withVertices vertices).link = g.link.withVertices vertices :=
  foldl_linkOne_withVertices (g := g.unlinked) hget g.pending

end

/-! ### The order of numbers -/

/-- The atlas with its lists in the order of numbers. -/
def byNumber (g : Atlas) : Atlas :=
  { g with qualified := g.qualified.sorted, simple := g.simple.sorted }

/-- The lists of the atlas ascend. -/
def Ascending (g : Atlas) : Prop := g.qualified.Ascending ∧ g.simple.Ascending

instance (g : Atlas) : Decidable g.Ascending :=
  inferInstanceAs (Decidable (g.qualified.Ascending ∧ g.simple.Ascending))

theorem Ascending.byNumber_eq (h : g.Ascending) : g.byNumber = g := by
  rw [byNumber, h.1.sorted_eq, h.2.sorted_eq]

/-- The vertices of an atlas in the order of numbers, the last one first. -/
def numberedVertices (g : Atlas) : Pool Vertex :=
  { g.net.vertices with items := g.net.vertices.numbered.reverse }

theorem Inv.numberedVertices_perm (h : g.Inv) : g.numberedVertices.items.Perm g.rows :=
  (List.reverse_perm _).trans h.wf.vertices.numbered_perm

theorem Inv.wf_numberedVertices (h : g.Inv) : g.numberedVertices.WF :=
  h.wf.vertices.reorder h.numberedVertices_perm

theorem Inv.get?_numberedVertices (h : g.Inv) (n : Nat) :
    g.numberedVertices.get? n = g.net.vertices.get? n := by
  ext v
  rw [h.wf_numberedVertices.get?_eq_some_iff, h.wf.vertices.get?_eq_some_iff]
  exact h.numberedVertices_perm.mem_iff

/-- With the lists, the vertices have to be put in the order of numbers. -/
theorem Inv.byNumber (h : g.Inv) : (g.byNumber.withVertices g.numberedVertices).Inv := by
  have hperm := h.numberedVertices_perm
  have hdescending : (g.numberedVertices.items.map Prod.fst).Pairwise (· > ·) := by
    rw [numberedVertices, List.map_reverse, List.pairwise_reverse]
    exact Pool.pairwise_numbered _
  have hlive : ∀ {n}, g.net.Live n → (g.byNumber.withVertices g.numberedVertices).net.Live n :=
    fun hn => (hperm.map Prod.fst).mem_iff.2 hn
  exact
    { wf :=
        { vertices := h.wf_numberedVertices
          arcs := h.wf.arcs
          ends := fun a ha => (h.wf.ends a ha).imp hlive hlive }
      qualified := h.qualified.sorted hperm hdescending
      simple := h.simple.sorted hperm hdescending
      files := Maps.perm h.files hperm
      repositories := Maps.perm h.repositories hperm
      housed := fun e he =>
        (h.housed e (hperm.mem_iff.1 he)).mono fun _ hmem _ => hperm.mem_iff.2 hmem
      linked := h.linked
      links := fun a ha => (h.links a ha).mono fun _ hmem _ => hperm.mem_iff.2 hmem
      pending := h.pending
      entities := h.entities }

theorem Inv.rows_toAtlas (h : g.Inv) :
    (ofAtlas g).toAtlas.rows = g.numberedVertices.items.map fun e => (place g e.1, e.2) := by
  have hplace : (ofAtlas g).vertices.zipIdx.map Prod.swap =
      g.net.vertices.numbered.map fun e => (place g e.1, e.2) := by
    refine List.ext_getElem (by simp [ofAtlas]) fun i hi hi' => ?_
    have hidx := (Pool.nodup_numbered g.net.vertices).idxOf_getElem i (by simpa using hi')
    rw [List.getElem_map] at hidx
    simp [ofAtlas, place, hidx]
  rw [rows, net_toAtlas h.ends_lt_length, Pool.foldl_add_empty, hplace, ← List.map_reverse]
  rfl

theorem Inv.ascending_toAtlas (h : g.Inv) : (ofAtlas g).toAtlas.Ascending := by
  have hnumbered :
      (ofAtlas g).toAtlas.rows = (ofAtlas g).toAtlas.net.vertices.numbered.reverse := by
    rw [h.numbered_toAtlas, rows, net_toAtlas h.ends_lt_length, Pool.foldl_add_empty]
  have hrows : ((ofAtlas g).toAtlas.rows.map Prod.fst).Pairwise (· > ·) := by
    rw [hnumbered, List.map_reverse, List.pairwise_reverse]
    exact Pool.pairwise_numbered _
  exact ⟨h.reloaded.qualified.ascending hrows, h.reloaded.simple.ascending hrows⟩

/-- A loaded atlas is a renaming of the stored one in the order of numbers. -/
theorem Inv.renaming_toAtlas (h : g.Inv) :
    Renaming (place g) (g.byNumber.withVertices g.numberedVertices) (ofAtlas g).toAtlas where
  inv := h.byNumber
  inv' := h.toAtlas_ofAtlas
  rows := by
    rw [fileRows, h.rows_toAtlas, List.filter_map]
    rfl

/-! ### What linking joins -/

/-- The two ends of each dependency with its edge, the newest first. -/
def joined (g : Atlas) : List (Option Vertex × Option Vertex × Edge) :=
  (g.net.links.map Prod.snd).map fun a =>
    (g.net.vertex? a.source, g.net.vertex? a.target, a.edge)

/-- The atlases join the same vertices by the same edges, and leave as much unresolved. -/
structure SameLinks (g g' : Atlas) : Prop where
  joined : g'.joined = g.joined
  unresolved : g'.unresolved = g.unresolved

theorem LinkRenaming.sameLinks {f : Nat → Nat} {g g' : Atlas} (h : LinkRenaming f g g') :
    SameLinks g g' where
  joined := by
    rw [Atlas.joined, h.links, List.map_map]
    refine List.map_congr_left fun a ha => ?_
    obtain ⟨hsource, htarget⟩ := h.inv.holds_of_mem_links ha
    simp only [Function.comp, Arc.rename, h.vertex? hsource, h.vertex? htarget]
  unresolved := h.unresolved

theorem joined_withVertices {vertices : Pool Vertex}
    (hget : ∀ n, vertices.get? n = g.net.vertices.get? n) :
    (g.withVertices vertices).joined = g.joined := by
  simp only [joined, withVertices, Net.vertex?, hget]
  rfl

/-- A loaded atlas links like the stored one with its lists in the order of numbers. -/
theorem Inv.sameLinks_toAtlas (h : g.Inv) : SameLinks g.byNumber.link (ofAtlas g).toAtlas.link := by
  have hlinks := (h.renaming_toAtlas.link h.reloaded.pending).sameLinks
  have hlink := link_withVertices (g := g.byNumber) h.get?_numberedVertices
  obtain ⟨arcs, linked, unresolved, heq⟩ := exists_link_eq g.byNumber
  have hget : ∀ n, g.numberedVertices.get? n = g.byNumber.link.net.vertices.get? n := by
    rw [heq]
    exact h.get?_numberedVertices
  rw [hlink] at hlinks
  exact ⟨hlinks.joined.trans (joined_withVertices hget), hlinks.unresolved⟩

variable {issued : List Nat}

/-- **Linking after loading** joins what linking the stored atlas joins once its lists are in the
order of numbers. If they are in that order, as those of a loaded atlas always are, storing and
loading does not matter to linking. -/
theorem link_ofBytes_toBytes (h : Reachable issued g) (hstorable : g.Storable) :
    ∃ g', ofBytes g.toBytes = .ok g' ∧ g'.Ascending ∧ SameLinks g.byNumber.link g'.link ∧
      (g.Ascending → SameLinks g.link g'.link) := by
  refine ⟨_, ofBytes_toBytes hstorable, h.inv.ascending_toAtlas, h.inv.sameLinks_toAtlas,
    fun hascending => ?_⟩
  have hlinks := h.inv.sameLinks_toAtlas
  rwa [hascending.byNumber_eq] at hlinks

/-- The numbers of a removed file are used again, by a symbol with a name of its own. -/
theorem link_ofBytes_toBytes_ascending :
    let method (name qualifiedName : String) : Symbol :=
      { name, qualifiedName, kind := .method, startLine := 1, endLine := 9
        isExported := true, visibility := .everyone, signature := none }
    let file (g : Atlas) (path : Path) (symbol : Symbol) (dependencies : List Dependency) :=
      (g.ingest none path { symbols := [symbol], dependencies } []).2
    let call : Dependency :=
      { fromSymbol := "D.Go", toSymbol := "Run", kind := .calls, line := 2, confidence := .one }
    let known := file (file (file {} ⟨"a.cs"⟩ (method "Run" "A.Run") []) ⟨"b.cs"⟩
      (method "Run" "B.Run") []) ⟨"c.cs"⟩ (method "Run" "C.Run") []
    let g := file (known.removeFile ⟨"a.cs"⟩) ⟨"d.cs"⟩ (method "Go" "D.Go") [call]
    (Reachable [] g ∧ g.Storable ∧ g.Ascending ∧ g.simple.list "Run" = [3, 5] ∧
      g.simple.list "Go" = [1]) ∧
      ∃ g', ofBytes g.toBytes = .ok g' ∧ g'.Ascending ∧ SameLinks g.byNumber.link g'.link ∧
        (g.Ascending → SameLinks g.link g'.link) := by
  intro method file call known g
  have hfile : ∀ {g : Atlas} (path : Path) (symbol : Symbol) (dependencies : List Dependency),
      Reachable [] g → Reachable [] (file g path symbol dependencies) :=
    fun path symbol dependencies h =>
      .ingest none path { symbols := [symbol], dependencies } [] h (by simp)
  have hknown : Reachable [] known := hfile _ _ _ (hfile _ _ _ (hfile _ _ _ .empty))
  have hg : Reachable [] g := hfile _ _ _ (.removeFile ⟨"a.cs"⟩ hknown)
  have hstorable : g.Storable := by decide +kernel
  have hascending : g.Ascending := by decide +kernel
  exact ⟨⟨hg, hstorable, hascending, by decide +kernel, by decide +kernel⟩,
    link_ofBytes_toBytes hg hstorable⟩

/-- The numbers of a removed file are used again, by a symbol with the name of an older one. Linking
takes the older symbol before storing, and the newer one after loading. -/
theorem link_ofBytes_toBytes_reused :
    let method (name qualifiedName : String) : Symbol :=
      { name, qualifiedName, kind := .method, startLine := 1, endLine := 2
        isExported := true, visibility := .everyone, signature := none }
    let file (g : Atlas) (path : Path) (symbol : Symbol) (dependencies : List Dependency) :=
      (g.ingest none path { symbols := [symbol], dependencies } []).2
    let call : Dependency :=
      { fromSymbol := "D.Go", toSymbol := "Run", kind := .calls, line := 2, confidence := .one }
    let known := file (file {} ⟨"A.cs"⟩ (method "Run" "A.Run") []) ⟨"B.cs"⟩
      (method "Run" "B.Run") []
    let g := file (file (known.removeFile ⟨"A.cs"⟩) ⟨"C.cs"⟩ (method "Run" "C.Run") []) ⟨"D.cs"⟩
      (method "Go" "D.Go") [call]
    let called (g : Atlas) := (g.dependenciesOf "D.Go").map fun found => found.1.name
    ∃ g', ofBytes g.toBytes = .ok g' ∧ called g.link = ["B.Run"] ∧ called g'.link = ["C.Run"] ∧
      ¬ SameLinks g.link g'.link := by
  intro method file call known g called
  have hstorable : g.Storable := by decide +kernel
  refine ⟨_, ofBytes_toBytes hstorable, by decide +kernel, by decide +kernel, fun h => ?_⟩
  have hjoined : (ofAtlas g).toAtlas.link.joined ≠ g.link.joined := by decide +kernel
  exact hjoined h.joined

end Atlas

end SymbolAtlas
