import Mathlib.Tactic
import SymbolAtlas.Graph.Net
import SymbolAtlas.Proofs.Graph.Pool

/-!
# Directed graphs, as lists of vertices and arcs

A graph is well formed (`Net.WF`) if its two pools are and every arc joins two of its vertices. What
is taken out of such a graph is then plain: a vertex goes with just the arcs at it
(`WF.items_eraseVertex`). Two views of the arcs are kept apart:

* `Net.homes n`, the vertices that contain the vertex `n`;
* `Net.links`, the arcs of dependency, the newest first.
-/

namespace SymbolAtlas.Net

/-- A vertex has the number. -/
def Live (net : Net) (n : Nat) : Prop := n ∈ net.vertices.items.map Prod.fst

/-- Both pools are well formed, and no arc hangs in the air. -/
structure WF (net : Net) : Prop where
  vertices : net.vertices.WF
  arcs : net.arcs.WF
  ends : ∀ a ∈ net.arcs.items, net.Live a.2.source ∧ net.Live a.2.target

/-- The vertices that contain a vertex. -/
def homes (net : Net) (n : Nat) : List Nat :=
  ((net.incoming n).filter fun a => a.2.edge.kind = .contains).map fun a => a.2.source

/-- The arcs of dependency, the newest first. -/
def links (net : Net) : List (Nat × Arc) :=
  net.arcs.items.filter fun a => a.2.edge.kind ≠ .contains

theorem wf_empty : WF ({} : Net) where
  vertices := Pool.wf_empty
  arcs := Pool.wf_empty
  ends := by simp

theorem live_of_mem {net : Net} {n : Nat} {v : Vertex} (h : (n, v) ∈ net.vertices.items) :
    net.Live n :=
  List.mem_map_of_mem h

theorem Live.exists_mem {net : Net} {n : Nat} (h : net.Live n) :
    ∃ v, (n, v) ∈ net.vertices.items := by
  obtain ⟨⟨m, v⟩, hmem, rfl⟩ := List.mem_map.1 h
  exact ⟨v, hmem⟩

theorem mem_homes {net : Net} {n home : Nat} :
    home ∈ net.homes n ↔ ∃ a ∈ net.arcs.items,
      a.2.source = home ∧ a.2.target = n ∧ a.2.edge.kind = .contains := by
  simp only [homes, incoming, List.mem_map, List.mem_filter, decide_eq_true_eq]
  constructor
  · rintro ⟨a, ⟨⟨ha, ht⟩, hk⟩, hs⟩
    exact ⟨a, ha, hs, ht, hk⟩
  · rintro ⟨a, ha, hs, ht, hk⟩
    exact ⟨a, ⟨⟨ha, ht⟩, hk⟩, hs⟩

theorem mem_links {net : Net} {a : Nat × Arc} :
    a ∈ net.links ↔ a ∈ net.arcs.items ∧ a.2.edge.kind ≠ .contains := by
  simp [links]

theorem homes_eq (net : Net) (n : Nat) :
    net.homes n = ((net.arcs.items.map Prod.snd).filter fun a =>
      a.edge.kind = .contains ∧ a.target = n).map Arc.source := by
  simp only [homes, incoming, List.filter_filter, List.filter_map, List.map_map, Bool.decide_and]
  rfl

/-- Nothing contains what is not there. -/
theorem WF.homes_eq_nil {net : Net} (h : net.WF) {n : Nat} (hn : ¬ net.Live n) :
    net.homes n = [] := by
  rw [List.eq_nil_iff_forall_not_mem]
  intro home hhome
  obtain ⟨a, ha, -, rfl, -⟩ := mem_homes.1 hhome
  exact hn (h.ends a ha).2

/-! ### Adding -/

@[simp] theorem arcs_addVertex (net : Net) (v : Vertex) : (net.addVertex v).arcs = net.arcs := rfl

@[simp] theorem items_addVertex (net : Net) (v : Vertex) :
    (net.addVertex v).vertices.items = (net.vertices.next, v) :: net.vertices.items := rfl

@[simp] theorem items_addArc (net : Net) (source target : Nat) (edge : Edge) :
    (net.addArc source target edge).arcs.items =
      (net.arcs.next, ⟨source, target, edge⟩) :: net.arcs.items := rfl

@[simp] theorem homes_addVertex (net : Net) (v : Vertex) (n : Nat) :
    (net.addVertex v).homes n = net.homes n := rfl

theorem homes_containment (net : Net) (source target n : Nat) :
    (net.addArc source target .containment).homes n =
      if n = target then source :: net.homes n else net.homes n := by
  by_cases h : n = target
  · subst h
    simp [homes, incoming, Edge.containment]
  · simp [homes, incoming, h, Ne.symm h]

theorem links_containment (net : Net) (source target : Nat) :
    (net.addArc source target .containment).links = net.links := by
  simp [links, Edge.containment]

theorem homes_addArc_of_ne (net : Net) (source target : Nat) {edge : Edge}
    (hedge : edge.kind ≠ .contains) (n : Nat) :
    (net.addArc source target edge).homes n = net.homes n := by
  simp only [homes, incoming, items_addArc, List.filter_filter]
  rw [List.filter_cons_of_neg (by simp [hedge])]

theorem links_addArc_of_ne (net : Net) (source target : Nat) {edge : Edge}
    (hedge : edge.kind ≠ .contains) :
    (net.addArc source target edge).links =
      (net.arcs.next, ⟨source, target, edge⟩) :: net.links := by
  rw [links, items_addArc, List.filter_cons_of_pos (by simp [hedge])]
  rfl

theorem WF.next_not_live {net : Net} (h : net.WF) : ¬ net.Live net.vertices.next := by
  intro hlive
  obtain ⟨v, hv⟩ := hlive.exists_mem
  exact h.vertices.next_fresh _ hv rfl

theorem WF.addVertex {net : Net} (h : net.WF) (v : Vertex) : (net.addVertex v).WF where
  vertices := h.vertices.add v
  arcs := h.arcs
  ends a ha := by
    obtain ⟨hs, ht⟩ := h.ends a ha
    exact ⟨List.mem_cons_of_mem _ hs, List.mem_cons_of_mem _ ht⟩

theorem WF.addArc {net : Net} (h : net.WF) {source target : Nat} (hs : net.Live source)
    (ht : net.Live target) (edge : Edge) : (net.addArc source target edge).WF where
  vertices := h.vertices
  arcs := h.arcs.add _
  ends a ha := by
    rcases List.mem_cons.1 ha with rfl | ha
    · exact ⟨hs, ht⟩
    · exact h.ends a ha

/-! ### Taking out -/

/-- Where no number stands twice, keeping out the numbers of some items keeps out just these. -/
theorem filter_not_mem_map_filter {α : Type} {l : List (Nat × α)} (hl : (l.map Prod.fst).Nodup)
    (p : Nat × α → Bool) :
    (l.filter fun e => e.1 ∉ (l.filter p).map Prod.fst) = l.filter fun e => !p e := by
  refine List.filter_congr fun e he => ?_
  have hmem : e.1 ∈ (l.filter p).map Prod.fst ↔ p e = true := by
    rw [List.mem_map]
    constructor
    · rintro ⟨e', he', heq⟩
      obtain ⟨hin, hp⟩ := List.mem_filter.1 he'
      rwa [← List.inj_on_of_nodup_map hl hin he heq]
    · exact fun hp => ⟨e, List.mem_filter.2 ⟨he, hp⟩, rfl⟩
  cases hp : p e <;> simp [hmem, hp]

theorem items_eraseArcs (net : Net) (ns : List Nat) :
    (net.eraseArcs ns).arcs.items = net.arcs.items.filter fun a => a.1 ∉ ns :=
  Pool.items_foldl_erase net.arcs ns

theorem WF.eraseArcs {net : Net} (h : net.WF) (ns : List Nat) : (net.eraseArcs ns).WF where
  vertices := h.vertices
  arcs := h.arcs.foldl_erase ns
  ends a ha := by
    rw [items_eraseArcs] at ha
    exact h.ends a (List.mem_of_mem_filter ha)

/-- A vertex goes with the arcs at it, and with nothing else. -/
theorem WF.items_eraseVertex {net : Net} (h : net.WF) (n : Nat) :
    (net.eraseVertex n).vertices.items = (net.vertices.items.filter fun e => e.1 ≠ n) ∧
      (net.eraseVertex n).arcs.items =
        net.arcs.items.filter fun a => a.2.source ≠ n ∧ a.2.target ≠ n := by
  cases hn : net.vertex? n with
  | none =>
    have hall := Pool.get?_eq_none_iff.1 hn
    -- There is no such vertex, and then no arc has it for an end.
    have hdead : ¬ net.Live n := fun hlive => by
      obtain ⟨v, hv⟩ := hlive.exists_mem
      exact hall _ hv rfl
    have herase : net.eraseVertex n = net := by simp only [eraseVertex, hn]
    rw [herase, List.filter_eq_self.2 fun e he => by simpa using hall e he,
      List.filter_eq_self.2 fun a ha => ?_]
    · exact ⟨rfl, rfl⟩
    · obtain ⟨hs, ht⟩ := h.ends a ha
      simp only [decide_eq_true_eq]
      exact ⟨fun heq => hdead (heq ▸ hs), fun heq => hdead (heq ▸ ht)⟩
  | some v =>
    have hout := h.eraseArcs ((net.outgoing n).map Prod.fst)
    simp only [eraseVertex, hn]
    refine ⟨Pool.items_erase _ _, ?_⟩
    show (Net.eraseArcs _ _).arcs.items = _
    rw [items_eraseArcs, incoming, filter_not_mem_map_filter hout.arcs.nodup, items_eraseArcs,
      outgoing, filter_not_mem_map_filter h.arcs.nodup, List.filter_filter]
    refine List.filter_congr fun a _ => ?_
    by_cases hs : a.2.source = n <;> by_cases ht : a.2.target = n <;> simp [hs, ht]

theorem WF.live_eraseVertex {net : Net} (h : net.WF) {n m : Nat} :
    (net.eraseVertex n).Live m ↔ net.Live m ∧ m ≠ n := by
  simp only [Live, (h.items_eraseVertex n).1, List.mem_map, List.mem_filter, decide_eq_true_eq]
  constructor
  · rintro ⟨e, ⟨he, hne⟩, rfl⟩
    exact ⟨⟨e, he, rfl⟩, hne⟩
  · rintro ⟨⟨e, he, rfl⟩, hne⟩
    exact ⟨e, ⟨he, hne⟩, rfl⟩

theorem WF.eraseVertex {net : Net} (h : net.WF) (n : Nat) : (net.eraseVertex n).WF := by
  have hends : ∀ a ∈ (net.eraseVertex n).arcs.items,
      (net.eraseVertex n).Live a.2.source ∧ (net.eraseVertex n).Live a.2.target := by
    intro a ha
    rw [(h.items_eraseVertex n).2, List.mem_filter, decide_eq_true_eq] at ha
    obtain ⟨hs, ht⟩ := h.ends a ha.1
    exact ⟨h.live_eraseVertex.2 ⟨hs, ha.2.1⟩, h.live_eraseVertex.2 ⟨ht, ha.2.2⟩⟩
  cases hn : net.vertex? n with
  | none => simpa only [Net.eraseVertex, hn] using h
  | some v =>
    refine ⟨?_, ?_, hends⟩
    · simp only [Net.eraseVertex, hn]
      exact h.vertices.erase n
    · simp only [Net.eraseVertex, hn]
      exact ((h.eraseArcs _).eraseArcs _).arcs

/-- Takes out vertices, one after the other. -/
def eraseVertices (net : Net) (ns : List Nat) : Net := ns.foldl eraseVertex net

theorem WF.eraseVertices {net : Net} (h : net.WF) (ns : List Nat) : (net.eraseVertices ns).WF := by
  induction ns generalizing net with
  | nil => exact h
  | cons n ns ih => exact ih (h.eraseVertex n)

theorem WF.items_eraseVertices {net : Net} (h : net.WF) (ns : List Nat) :
    (net.eraseVertices ns).vertices.items = (net.vertices.items.filter fun e => e.1 ∉ ns) ∧
      (net.eraseVertices ns).arcs.items =
        net.arcs.items.filter fun a => a.2.source ∉ ns ∧ a.2.target ∉ ns := by
  induction ns generalizing net with
  | nil => simp [Net.eraseVertices]
  | cons n ns ih =>
    obtain ⟨hvertices, harcs⟩ := ih (h.eraseVertex n)
    rw [(h.items_eraseVertex n).1, List.filter_filter] at hvertices
    rw [(h.items_eraseVertex n).2, List.filter_filter] at harcs
    refine ⟨hvertices.trans (List.filter_congr fun e _ => ?_),
      harcs.trans (List.filter_congr fun a _ => ?_)⟩
    · rw [← Bool.decide_and, decide_eq_decide, List.mem_cons]
      tauto
    · rw [← Bool.decide_and, decide_eq_decide, List.mem_cons, List.mem_cons]
      tauto

theorem WF.homes_eraseVertices {net : Net} (h : net.WF) {ns : List Nat} {n : Nat} (hn : n ∉ ns) :
    (net.eraseVertices ns).homes n = (net.homes n).filter (· ∉ ns) := by
  simp only [homes, incoming, (h.items_eraseVertices ns).2, List.filter_filter, List.filter_map]
  congr 1
  refine List.filter_congr fun a _ => ?_
  by_cases ht : a.2.target = n <;> simp [ht, hn, Bool.and_comm]

theorem WF.links_eraseVertices {net : Net} (h : net.WF) (ns : List Nat) :
    (net.eraseVertices ns).links =
      net.links.filter fun a => a.2.source ∉ ns ∧ a.2.target ∉ ns := by
  simp only [links, (h.items_eraseVertices ns).2, List.filter_filter]
  exact List.filter_congr fun a _ => Bool.and_comm _ _

/-! ### Changing an arc -/

/-- Changes the arc under a number. -/
def modifyArc (net : Net) (n : Nat) (f : Arc → Arc) : Net :=
  { net with arcs := net.arcs.modify n f }

/-- The changed arc stands where the old one did. -/
theorem filter_modifyArc (net : Net) (n : Nat) {f : Arc → Arc} {p : Arc → Bool}
    (hp : ∀ a, p (f a) = p a) :
    ((net.modifyArc n f).arcs.items.filter fun a => p a.2) =
      (net.arcs.items.filter fun a => p a.2).map fun e =>
        if e.1 = n then (e.1, f e.2) else e := by
  rw [modifyArc, Pool.modify, List.filter_map]
  congr 1
  refine List.filter_congr fun e _ => ?_
  simp only [Function.comp]
  split
  · exact hp e.2
  · rfl

section

variable {net : Net} {n : Nat} {f : Arc → Arc}

theorem WF.modifyArc (h : net.WF) (hends : ∀ a, (f a).source = a.source ∧ (f a).target = a.target) :
    (net.modifyArc n f).WF where
  vertices := h.vertices
  arcs := h.arcs.modify n f
  ends a ha := by
    obtain ⟨b, hb, rfl⟩ := List.mem_map.1 ha
    split
    · obtain ⟨hsource, htarget⟩ := hends b.2
      rw [hsource, htarget]
      exact h.ends b hb
    · exact h.ends b hb

theorem links_modifyArc (hkind : ∀ a, (f a).edge.kind = a.edge.kind) :
    (net.modifyArc n f).links =
      net.links.map fun e => if e.1 = n then (e.1, f e.2) else e :=
  filter_modifyArc net n (p := fun a => a.edge.kind ≠ .contains) fun a => by simp only [hkind]

theorem homes_modifyArc (hends : ∀ a, (f a).source = a.source ∧ (f a).target = a.target)
    (hkind : ∀ a, (f a).edge.kind = a.edge.kind) (m : Nat) :
    (net.modifyArc n f).homes m = net.homes m := by
  simp only [homes, incoming, List.filter_filter]
  rw [filter_modifyArc net n (p := fun a => a.edge.kind = .contains && a.target = m)
    fun a => by simp only [hkind, (hends a).2], List.map_map]
  refine List.map_congr_left fun e _ => ?_
  simp only [Function.comp]
  split
  · exact (hends e.2).1
  · rfl

end

end SymbolAtlas.Net
