import Mathlib.Tactic
import SymbolAtlas.Graph.Link
import SymbolAtlas.Proofs.Graph.Invariant

/-!
# Linking keeps the invariant

Linking changes the arcs of dependency, their index and the count of what is unresolved, and nothing
else (`exists_link_eq`), so that a dependency has the same ends before, during and after it.

* `Inv.links_connect` — one more dependency of a kind between the same ends is merged into the arc
  that is there, and any other gets an arc of its own (`joinArc`).
* `Inv.link` — linking keeps the invariant.
-/

namespace SymbolAtlas.Atlas

variable {g : Atlas}

/-! ### The ends of a dependency -/

theorem mem_of_preferFile {path : Path} {candidates : List Nat} {n : Nat}
    (h : g.preferFile path candidates = some n) : n ∈ candidates := by
  rw [preferFile, Option.or_eq_some_iff] at h
  rcases h with h | ⟨-, h⟩
  · exact List.mem_of_find?_eq_some h
  · exact List.mem_of_head? h

theorem mem_of_named? {name : String} {path : Path} {n : Nat} (h : g.named? name path = some n) :
    n ∈ g.qualified.list name :=
  mem_of_preferFile h

theorem Inv.isSymbol_of_named? (h : g.Inv) {name : String} {path : Path} {n : Nat}
    (hn : g.named? name path = some n) : ∃ v, (n, v) ∈ g.rows ∧ v.isSymbol := by
  obtain ⟨v, hmem, hv, -⟩ := h.qualified.mem_list.1 (mem_of_named? hn)
  exact ⟨v, hmem, hv⟩

theorem mem_of_mem_endingIn {target : String} {n : Nat} (h : n ∈ g.endingIn target) :
    n ∈ g.simple.list (Dotted.lastSegment target) := by
  simp only [endingIn] at h
  split at h
  · cases h
  · exact List.mem_of_mem_filter h

theorem Inv.isSymbol_of_target? (h : g.Inv) {target : String} {path : Path} {n : Nat}
    (hn : g.target? target path = some n) : ∃ v, (n, v) ∈ g.rows ∧ v.isSymbol := by
  simp only [target?, Option.or_eq_some_iff] at hn
  have hsimple : n ∈ g.simple.list (Dotted.lastSegment target) →
      ∃ v, (n, v) ∈ g.rows ∧ v.isSymbol := by
    intro hlist
    obtain ⟨v, hmem, hv, -⟩ := h.simple.mem_list.1 hlist
    exact ⟨v, hmem, hv⟩
  rcases hn with hn | ⟨-, hn | ⟨-, hn⟩⟩
  · exact h.isSymbol_of_named? hn
  · exact hsimple (mem_of_mem_endingIn (mem_of_preferFile hn))
  · exact hsimple (mem_of_preferFile hn)

theorem Inv.kind_of_source? (h : g.Inv) {source : String} {path : Path} {n : Nat}
    (hn : g.source? source path = some n) : ∃ v, (n, v) ∈ g.rows ∧ v.kind ≠ .repository := by
  rw [source?, Option.or_eq_some_iff] at hn
  rcases hn with hn | ⟨-, hn⟩
  · obtain ⟨v, hmem, hv⟩ := h.isSymbol_of_named? hn
    obtain ⟨kind, hkind⟩ := Vertex.isSymbol_iff.1 hv
    exact ⟨v, hmem, by simp [hkind]⟩
  · obtain ⟨v, hmem, hkind, -⟩ := h.files.find?_eq_some_iff.1 hn
    exact ⟨v, hmem, by simp [hkind]⟩

theorem ends?_eq_some_iff {d : Pending} {source target : Nat} :
    g.ends? d = some (source, target) ↔ g.source? d.fromSymbol d.path = some source ∧
      g.target? d.toSymbol d.path = some target ∧ source ≠ target := by
  unfold ends?
  split
  case h_1 s t hs ht =>
    split
    case isTrue heq =>
      simp only [hs, ht, Option.some.injEq, false_iff, reduceCtorEq]
      rintro ⟨rfl, rfl, hne⟩
      exact hne heq
    case isFalse hne =>
      simp only [hs, ht, Option.some.injEq, Prod.mk.injEq]
      constructor
      · rintro ⟨rfl, rfl⟩
        exact ⟨rfl, rfl, hne⟩
      · rintro ⟨rfl, rfl, -⟩
        exact ⟨rfl, rfl⟩
  case h_2 hnot =>
    refine iff_of_false (by simp) ?_
    rintro ⟨hs, ht, -⟩
    exact hnot _ _ hs ht

/-! ### One dependency -/

/-- The arc with one more dependency merged into it. -/
def mergeArc (d : Pending) (a : Arc) : Arc := { a with edge := sharedEdge d a.edge }

/-- The arc of a dependency that is the first of its kind between its ends. -/
def newArc (source target : Nat) (d : Pending) : Arc :=
  ⟨source, target, { kind := .depends d.kind, line := d.line, confidence := d.confidence }⟩

@[simp] theorem key?_newArc (source target : Nat) (d : Pending) :
    (newArc source target d).key? = some (source, target, d.kind) := rfl

/-- Other arcs of dependency, with their index, may come in place of those that are there. -/
theorem Inv.relink (h : g.Inv) {net : Net} (hwf : net.WF)
    (hvertices : net.vertices = g.net.vertices) (hhomes : ∀ n, net.homes n = g.net.homes n)
    {linked : Index (Nat × Nat × DependencyKind) Nat} (hlinked : Joins linked net.links)
    (hlinks : ∀ a ∈ net.links, a.2.Proper g.rows) (unresolved : Nat) :
    Inv { g with net, linked, unresolved } := by
  obtain ⟨vertices, arcs⟩ := net
  obtain rfl : vertices = g.net.vertices := hvertices
  exact
    { h with
      wf := hwf
      housed := fun e he => by
        rw [hhomes]
        exact h.housed e he
      linked := hlinked
      links := hlinks }

/-- Two vertices that a dependency already joins share its arc, and others get a new one. -/
theorem Inv.connect_cases (h : g.Inv) (source target : Nat) (d : Pending) :
    (∃ n, g.linked.find? (source, target, d.kind) = some n ∧
      g.connect source target d = { g with net := g.net.modifyArc n (mergeArc d) }) ∨
    (g.linked.find? (source, target, d.kind) = none ∧
      g.connect source target d = { g with
        net := g.net.addArc source target (newArc source target d).edge
        linked := g.linked.insert (source, target, d.kind) g.net.arcs.next }) := by
  cases hfind : g.linked.find? (source, target, d.kind) with
  | none =>
    refine Or.inr ⟨rfl, ?_⟩
    simp only [connect, hfind, Option.filter_none]
    rfl
  | some n =>
    obtain ⟨a, ha, -⟩ := (h.linked.find?_iff _ _).1 hfind
    have hlive : (g.net.arc? n).isSome :=
      h.wf.arcs.isSome_get?_iff.2 (List.mem_map_of_mem (Net.mem_links.1 ha).1)
    refine Or.inl ⟨n, rfl, ?_⟩
    simp only [connect, hfind, Option.filter_some, hlive, if_true]
    rfl

theorem Inv.connect (h : g.Inv) {d : Pending} {source target : Nat}
    (hends : g.ends? d = some (source, target)) : (g.connect source target d).Inv := by
  obtain ⟨hsource, htarget, hne⟩ := ends?_eq_some_iff.1 hends
  obtain ⟨v, hv, hvkind⟩ := h.kind_of_source? hsource
  obtain ⟨w, hw, hwsymbol⟩ := h.isSymbol_of_target? htarget
  rcases h.connect_cases source target d with ⟨n, hfind, heq⟩ | ⟨hfind, heq⟩
  · -- The arc is there: its edge takes in the dependency, and its ends stay.
    have hwf : (g.net.modifyArc n (mergeArc d)).WF := h.wf.modifyArc fun _ => ⟨rfl, rfl⟩
    have hlinks : (g.net.modifyArc n (mergeArc d)).links = _ := Net.links_modifyArc fun _ => rfl
    rw [heq]
    refine h.relink hwf rfl
      (Net.homes_modifyArc (f := mergeArc d) (fun _ => ⟨rfl, rfl⟩) fun _ => rfl) ?_ ?_ _
    · rw [hlinks]
      refine h.linked.map (fun a => ?_) fun a => ?_
      · split <;> rfl
      · split <;> rfl
    · intro a ha
      rw [hlinks] at ha
      obtain ⟨b, hb, rfl⟩ := List.mem_map.1 ha
      split
      · exact h.links b hb
      · exact h.links b hb
  · -- The index has no number for the ends, so that of the new arc goes in.
    have hkind : (newArc source target d).edge.kind ≠ .contains := by simp [newArc]
    have hlinks := Net.links_addArc_of_ne g.net source target hkind
    rw [heq]
    refine h.relink (h.wf.addArc (Net.live_of_mem hv) (Net.live_of_mem hw) _) rfl
      (Net.homes_addArc_of_ne _ _ _ hkind) ?_ ?_ _
    · rw [hlinks]
      exact h.linked.insert (key?_newArc source target d) hfind
    · intro a ha
      rw [hlinks] at ha
      rcases List.mem_cons.1 ha with rfl | ha
      · exact ⟨hne, ⟨v, hv, hvkind⟩, w, hw, hwsymbol⟩
      · exact h.links a ha

theorem unresolved_connect (g : Atlas) (source target : Nat) (d : Pending) :
    (g.connect source target d).unresolved = g.unresolved := by
  simp only [Atlas.connect]
  split <;> rfl

/-- The arcs with one more dependency. -/
def joinArc (arcs : List Arc) (source target : Nat) (d : Pending) : List Arc :=
  if ∃ a ∈ arcs, a.key? = some (source, target, d.kind) then
    arcs.map fun a => if a.key? = some (source, target, d.kind) then mergeArc d a else a
  else newArc source target d :: arcs

theorem Inv.links_connect (h : g.Inv) (source target : Nat) (d : Pending) :
    (g.connect source target d).net.links.map Prod.snd =
      joinArc (g.net.links.map Prod.snd) source target d := by
  rcases h.connect_cases source target d with ⟨n, hfind, heq⟩ | ⟨hfind, heq⟩
  · obtain ⟨a, ha, hkey⟩ := (h.linked.find?_iff _ _).1 hfind
    have hlinks : (g.net.modifyArc n (mergeArc d)).links = _ := Net.links_modifyArc fun _ => rfl
    rw [heq, hlinks, joinArc, if_pos ⟨a, List.mem_map_of_mem ha, hkey⟩, List.map_map, List.map_map]
    refine List.map_congr_left fun e he => ?_
    -- The arc with the number `n` is the one with the key.
    have hiff : e.1 = n ↔ e.2.key? = some (source, target, d.kind) := by
      constructor
      · intro hn
        rwa [List.inj_on_of_nodup_map h.wf.arcs.nodup (Net.mem_links.1 he).1 (Net.mem_links.1 ha).1 hn]
      · intro hekey
        have hfind' := (h.linked.find?_iff _ _).2 ⟨e.2, he, hekey⟩
        rw [hfind, Option.some.injEq] at hfind'
        exact hfind'.symm
    simp only [Function.comp, hiff]
    split <;> rfl
  · have hnone : ¬ ∃ a ∈ g.net.links.map Prod.snd, a.key? = some (source, target, d.kind) := by
      rintro ⟨a, ha, hkey⟩
      obtain ⟨e, he, rfl⟩ := List.mem_map.1 ha
      rw [(h.linked.find?_iff _ _).2 ⟨e.2, he, hkey⟩] at hfind
      cases hfind
    have hkind : (newArc source target d).edge.kind ≠ .contains := by simp [newArc]
    rw [heq, Net.links_addArc_of_ne _ _ _ hkind, joinArc, if_neg hnone]
    rfl

theorem Inv.linkOne (h : g.Inv) (d : Pending) : (g.linkOne d).Inv := by
  cases hends : g.ends? d with
  | none =>
    simp only [Atlas.linkOne, hends]
    exact { h with }
  | some ends =>
    simp only [Atlas.linkOne, hends]
    exact h.connect hends

/-! ### All dependencies -/

/-- Linking a dependency changes the arcs, their index and the count of unresolved ones only. -/
theorem exists_linkOne_eq (g : Atlas) (d : Pending) : ∃ arcs linked unresolved,
    g.linkOne d = { g with net := { g.net with arcs }, linked, unresolved } := by
  cases hends : g.ends? d with
  | none => exact ⟨g.net.arcs, g.linked, g.unresolved + 1, by simp only [linkOne, hends]⟩
  | some ends =>
    simp only [linkOne, hends, connect]
    split
    · exact ⟨_, _, _, rfl⟩
    · exact ⟨_, _, _, rfl⟩

theorem rows_linkOne (g : Atlas) (d : Pending) : (g.linkOne d).rows = g.rows := by
  obtain ⟨arcs, linked, unresolved, heq⟩ := exists_linkOne_eq g d
  rw [heq]

theorem exists_foldl_linkOne_eq (g : Atlas) (ds : List Pending) : ∃ arcs linked unresolved,
    ds.foldl linkOne g = { g with net := { g.net with arcs }, linked, unresolved } := by
  induction ds generalizing g with
  | nil => exact ⟨_, _, _, rfl⟩
  | cons d ds ih =>
    obtain ⟨arcs, linked, unresolved, heq⟩ := exists_linkOne_eq g d
    obtain ⟨arcs', linked', unresolved', heq'⟩ := ih (g.linkOne d)
    refine ⟨arcs', linked', unresolved', ?_⟩
    rw [List.foldl_cons, heq', heq]

theorem exists_link_eq (g : Atlas) : ∃ arcs linked unresolved,
    g.link = { g with net := { g.net with arcs }, linked, unresolved } :=
  exists_foldl_linkOne_eq g.unlinked g.pending

theorem rows_link (g : Atlas) : g.link.rows = g.rows := by
  obtain ⟨arcs, linked, unresolved, heq⟩ := exists_link_eq g
  rw [heq]

/-- Of the arcs, those of containment stay. -/
theorem Inv.items_unlinked (h : g.Inv) :
    g.unlinked.net.arcs.items = g.net.arcs.items.filter fun a => a.2.edge.kind = .contains := by
  rw [unlinked, Net.items_eraseArcs]
  refine List.filter_congr fun e he => ?_
  have hmem : e.1 ∈ (g.net.arcs.numbered.filter fun a => a.2.edge.kind ≠ .contains).map Prod.fst ↔
      e.2.edge.kind ≠ .contains := by
    rw [List.mem_map]
    constructor
    · rintro ⟨a, ha, heq⟩
      obtain ⟨hin, hkind⟩ := List.mem_filter.1 ha
      have hin := (Pool.mem_numbered h.wf.arcs).1 hin
      rw [List.inj_on_of_nodup_map h.wf.arcs.nodup hin he heq] at hkind
      simpa using hkind
    · exact fun hkind => ⟨e, List.mem_filter.2
        ⟨(Pool.mem_numbered h.wf.arcs).2 he, by simpa using hkind⟩, rfl⟩
  simp only [hmem, not_not]

theorem Inv.links_unlinked (h : g.Inv) : g.unlinked.net.links = [] := by
  rw [Net.links, h.items_unlinked, List.filter_filter, List.filter_eq_nil_iff]
  simp

theorem Inv.homes_unlinked (h : g.Inv) (n : Nat) : g.unlinked.net.homes n = g.net.homes n := by
  simp only [Net.homes, Net.incoming, h.items_unlinked, List.filter_filter]
  congr 1
  refine List.filter_congr fun a _ => ?_
  cases hkind : a.2.edge.kind <;> simp

theorem Inv.unlinked (h : g.Inv) : g.unlinked.Inv := by
  have hwf : g.unlinked.net.WF := h.wf.eraseArcs _
  refine h.relink hwf rfl h.homes_unlinked ?_ ?_ 0
  · rw [h.links_unlinked]
    exact Maps.empty
  · rw [h.links_unlinked]
    intro a ha
    cases ha

theorem Inv.foldl_linkOne (h : g.Inv) (ds : List Pending) : (ds.foldl Atlas.linkOne g).Inv := by
  induction ds generalizing g with
  | nil => exact h
  | cons d ds ih => exact ih (h.linkOne d)

theorem Inv.link (h : g.Inv) : g.link.Inv := h.unlinked.foldl_linkOne g.pending

end SymbolAtlas.Atlas
