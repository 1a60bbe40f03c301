import Mathlib.Tactic
import SymbolAtlas.Proofs.Graph.Reachable
import SymbolAtlas.Proofs.Graph.Resolution
import SymbolAtlas.Proofs.Record.Combined

/-!
# The edges that linking makes

To link is to merge: each declared dependency with two ends is an arc of its own, and those of one
kind between the same vertices are made one (`Inv.reverse_links_link`). So there is an edge just for
the dependencies that a scan of all vertices resolves, on the first of their lines and as sure as
the surest of them, and what has no edge is counted (`IsLinkingOf`).

* `Single.rank_max` — the greater of two confidences; what is no number gives way.
* `Inv.eq_of_key?_eq` — no two arcs of dependency have the same ends and kind.
* `link_of_reachable` — what linking makes of a reachable atlas.
-/

namespace SymbolAtlas

/-! ### Merged arcs -/

theorem Single.rank_max (x y : Single) : (x.max y).rank = x.rank.merge Max.max y.rank := by
  unfold Single.max isBelow
  cases hx : x.rank with
  | none => simp
  | some a =>
    cases hy : y.rank with
    | none => simp [hx]
    | some b =>
      by_cases hab : a < b
      · simp [hab, hy, hab.le]
      · simp [hab, hx, Int.not_lt.1 hab]

namespace Arc

/-- Two arcs of one kind between the same vertices made one. -/
def join (a b : Arc) : Arc :=
  { a with edge := { a.edge with
    confidence := a.edge.confidence.max b.edge.confidence
    line := min a.edge.line b.edge.line } }

theorem keepsKey_join : Keyed.KeepsKey Arc.key? Arc.join := fun _ _ _ => rfl

/-- The arc is on the least line of a group, and as sure as the surest of it. -/
structure Covers (group : List Arc) (a : Arc) : Prop where
  line : (group.map (·.edge.line)).min? = some a.edge.line
  rank : (group.filterMap (·.edge.confidence.rank)).max? = a.edge.confidence.rank
  confidence : ∃ b ∈ group, b.edge.confidence = a.edge.confidence

theorem covers_singleton (a : Arc) : Covers [a] a where
  line := rfl
  rank := by cases h : a.edge.confidence.rank <;> simp [h]
  confidence := ⟨a, List.mem_cons_self, rfl⟩

theorem Covers.join {group : List Arc} {a : Arc} (h : Covers group a) (b : Arc) :
    Covers (group ++ [b]) (a.join b) where
  line := by
    rw [List.map_append]
    exact min?_concat h.line b.edge.line
  rank := by
    have hrank : (a.join b).edge.confidence.rank =
        a.edge.confidence.rank.merge max b.edge.confidence.rank := Single.rank_max _ _
    rw [hrank, List.filterMap_append]
    cases hb : b.edge.confidence.rank with
    | none => simpa [hb] using h.rank
    | some y =>
      cases ha : a.edge.confidence.rank with
      | none =>
        -- Nothing in the group is a number, so the new one stands alone.
        have hnil := List.max?_eq_none_iff.1 (h.rank.trans ha)
        simp [hb, hnil]
      | some x => simpa [hb] using max?_concat (h.rank.trans ha) y
  confidence := by
    have hmax : (a.join b).edge.confidence = a.edge.confidence.max b.edge.confidence := rfl
    rw [hmax]
    unfold Single.max
    split
    · exact ⟨b, by simp, rfl⟩
    · obtain ⟨c, hc, heq⟩ := h.confidence
      exact ⟨c, List.mem_append_left _ hc, heq⟩

theorem represents_merge (all : List Arc) :
    Keyed.Represents Covers key? all (Keyed.merge key? join all) :=
  Keyed.represents_merge keepsKey_join covers_singleton (fun _ _ b _ h => h.join b) all

end Arc

namespace Atlas

variable {g : Atlas}

/-! ### Linking merges -/

/-- No two arcs of dependency have the same ends and kind. -/
theorem Inv.eq_of_key?_eq (h : g.Inv) {a b : Nat × Arc} (ha : a ∈ g.net.links)
    (hb : b ∈ g.net.links) (hkey : a.2.key? = b.2.key?) : a = b := by
  obtain ⟨key, hakey⟩ := Option.isSome_iff_exists.1 (Arc.isSome_key?_iff.2 (Net.mem_links.1 ha).2)
  have hfind := (h.linked.find?_iff key a.1).2 ⟨a.2, ha, hakey⟩
  rw [(h.linked.find?_iff key b.1).2 ⟨b.2, hb, hkey ▸ hakey⟩, Option.some.injEq] at hfind
  exact List.inj_on_of_nodup_map h.wf.arcs.nodup (Net.mem_links.1 ha).1 (Net.mem_links.1 hb).1
    hfind.symm

theorem Inv.nodup_keys (h : g.Inv) : ((g.net.links.map Prod.snd).map Arc.key?).Nodup := by
  rw [List.map_map]
  exact (h.wf.arcs.nodup.of_map.filter _).map_on fun a ha b hb => h.eq_of_key?_eq ha hb

/-- Joining an arc to others is inserting it, the oldest arc first. -/
theorem reverse_joinArc {arcs : List Arc} (harcs : (arcs.map Arc.key?).Nodup) (source target : Nat)
    (d : Pending) :
    (joinArc arcs source target d).reverse =
      Keyed.insert Arc.key? Arc.join (newArc source target d) arcs.reverse := by
  have hmem : (newArc source target d).key? ∈ arcs.reverse.map Arc.key? ↔
      ∃ a ∈ arcs, a.key? = some (source, target, d.kind) := by
    simp only [key?_newArc, List.mem_map, List.mem_reverse]
  unfold joinArc
  split
  case isTrue hknown =>
    have hnodup : (arcs.reverse.map Arc.key?).Nodup := by
      rwa [List.map_reverse, List.nodup_reverse]
    rw [Keyed.insert_of_mem hnodup (hmem.2 hknown), ← List.map_reverse]
    refine List.map_congr_left fun a _ => ?_
    by_cases hkey : a.key? = some (source, target, d.kind)
    · rw [if_pos hkey, if_pos (by simpa using hkey)]
      rfl
    · rw [if_neg hkey, if_neg (by simpa using hkey)]
  case isFalse hnew =>
    rw [Keyed.insert_of_not_mem fun hin => hnew (hmem.1 hin), List.reverse_cons]

/-- The arc of a declared dependency, as if it were the only one. -/
def arcOf? (g : Atlas) (d : Pending) : Option Arc :=
  (g.scanEnds? d).map fun ends => newArc ends.1 ends.2 d

theorem scanEnds?_congr {g g' : Atlas} (h : g.rows = g'.rows) (d : Pending) :
    g.scanEnds? d = g'.scanEnds? d := by
  simp only [scanEnds?, scanSource?, scanTarget?, scanFile?, scan?, symbolRows, h]

theorem Inv.reverse_links_linkOne (h : g.Inv) (d : Pending) :
    ((g.linkOne d).net.links.map Prod.snd).reverse =
      (g.arcOf? d).toList.foldl (fun kept a => Keyed.insert Arc.key? Arc.join a kept)
        (g.net.links.map Prod.snd).reverse := by
  rw [arcOf?, ← h.ends?_eq_scanEnds?]
  cases hends : g.ends? d with
  | none =>
    simp only [Atlas.linkOne, hends]
    rfl
  | some ends =>
    simp only [Atlas.linkOne, hends]
    rw [h.links_connect, reverse_joinArc h.nodup_keys]
    rfl

theorem Inv.reverse_links_foldl (h : g.Inv) (ds : List Pending) :
    ((ds.foldl Atlas.linkOne g).net.links.map Prod.snd).reverse =
      (ds.filterMap g.arcOf?).foldl (fun kept a => Keyed.insert Arc.key? Arc.join a kept)
        (g.net.links.map Prod.snd).reverse := by
  induction ds generalizing g with
  | nil => rfl
  | cons d ds ih =>
    have hends : (g.linkOne d).arcOf? = g.arcOf? := by
      funext d'
      rw [arcOf?, arcOf?, scanEnds?_congr (rows_linkOne g d)]
    rw [List.foldl_cons, ih (h.linkOne d), hends, h.reverse_links_linkOne]
    cases harc : g.arcOf? d <;> simp [harc]

/-- The arcs of dependency, the oldest first, are the arcs of the declared dependencies, merged. -/
theorem Inv.reverse_links_link (h : g.Inv) :
    (g.link.net.links.map Prod.snd).reverse =
      Keyed.merge Arc.key? Arc.join (g.pending.filterMap g.arcOf?) := by
  have hfold := h.unlinked.reverse_links_foldl g.pending
  have harcs : g.unlinked.arcOf? = g.arcOf? := rfl
  rw [h.links_unlinked, harcs] at hfold
  exact hfold

theorem Inv.unresolved_foldl (h : g.Inv) (ds : List Pending) :
    (ds.foldl Atlas.linkOne g).unresolved =
      g.unresolved + ds.countP fun d => (g.scanEnds? d).isNone := by
  induction ds generalizing g with
  | nil => rfl
  | cons d ds ih =>
    have hends : (fun d' => ((g.linkOne d).scanEnds? d').isNone) =
        fun d' => (g.scanEnds? d').isNone := by
      funext d'
      rw [scanEnds?_congr (rows_linkOne g d)]
    rw [List.foldl_cons, ih (h.linkOne d), hends, List.countP_cons, ← h.ends?_eq_scanEnds?]
    cases hd : g.ends? d with
    | none =>
      simp only [Atlas.linkOne, hd, Option.isNone_none, if_true]
      omega
    | some ends =>
      simp only [Atlas.linkOne, hd, unresolved_connect, Option.isNone_some, Bool.false_eq_true,
        if_false]
      omega

/-! ### One edge for the dependencies between two vertices -/

/-- The declared dependencies of a kind that lead from one vertex to another. -/
def declared (g : Atlas) (source target : Nat) (kind : DependencyKind) : List Pending :=
  g.pending.filter fun d => d.kind = kind ∧ g.scanEnds? d = some (source, target)

theorem filter_arcOf? (g : Atlas) (source target : Nat) (kind : DependencyKind)
    (ds : List Pending) :
    ((ds.filterMap g.arcOf?).filter fun a => a.key? == some (source, target, kind)) =
      (ds.filter fun d => d.kind = kind ∧ g.scanEnds? d = some (source, target)).map
        (newArc source target) := by
  induction ds with
  | nil => rfl
  | cons d ds ih =>
    cases hends : g.scanEnds? d with
    | none => simpa [arcOf?, hends] using ih
    | some ends =>
      obtain ⟨s, t⟩ := ends
      have harc : g.arcOf? d = some (newArc s t d) := by rw [arcOf?, hends]; rfl
      rw [List.filterMap_cons_some harc]
      by_cases hkey : (newArc s t d).key? = some (source, target, kind)
      · have hall := hkey
        rw [key?_newArc, Option.some.injEq, Prod.mk.injEq, Prod.mk.injEq] at hall
        obtain ⟨rfl, rfl, rfl⟩ := hall
        rw [List.filter_cons_of_pos (by simp), List.filter_cons_of_pos (by simp [hends]), ih]
        rfl
      · rw [List.filter_cons_of_neg (by simpa using hkey), List.filter_cons_of_neg, ih]
        rw [key?_newArc] at hkey
        simp only [hends, decide_eq_true_eq]
        rintro ⟨rfl, heq⟩
        cases heq
        exact hkey rfl

/-- The second atlas is the first with an edge for each kind of dependency between two vertices that
is declared, as a scan of all vertices tells, and with no other edge of dependency. -/
structure IsLinkingOf (g linked : Atlas) : Prop where
  vertices : linked.net.vertices = g.net.vertices
  pending : linked.pending = g.pending
  /-- The scan goes through the symbols in the order of the lists in the indexes. -/
  order : (∀ name, g.qualified.list name =
      (g.symbolRows.filter fun e => e.2.name = name).map Prod.fst) ∧
    ∀ segment, g.simple.list segment =
      (g.symbolRows.filter fun e => Dotted.lastSegment e.2.name = segment).map Prod.fst
  exists_arc_iff : ∀ source target kind,
    (∃ n a, linked.net.arc? n = some a ∧ a.key? = some (source, target, kind)) ↔
      ∃ d ∈ g.pending, d.kind = kind ∧ g.scanEnds? d = some (source, target)
  unique : ∀ n a m b key, linked.net.arc? n = some a → linked.net.arc? m = some b →
    a.key? = some key → b.key? = some key → n = m
  line : ∀ n a source target kind, linked.net.arc? n = some a →
    a.key? = some (source, target, kind) →
    ((g.declared source target kind).map Pending.line).min? = some a.edge.line
  /-- The confidence is that of one of the dependencies, and the greatest of those that are
  numbers. -/
  confidence : ∀ n a source target kind, linked.net.arc? n = some a →
    a.key? = some (source, target, kind) →
    (∃ d ∈ g.declared source target kind, d.confidence = a.edge.confidence) ∧
      ((g.declared source target kind).filterMap (·.confidence.rank)).max? =
        a.edge.confidence.rank
  unresolved : linked.unresolved = g.pending.countP fun d => (g.scanEnds? d).isNone

theorem Inv.mem_links_link (h : g.Inv) {n : Nat} {a : Arc} (hn : g.link.net.arc? n = some a)
    {key : Nat × Nat × DependencyKind} (hkey : a.key? = some key) : (n, a) ∈ g.link.net.links :=
  Net.mem_links.2 ⟨h.link.arc?_eq_some_iff.1 hn, Arc.isSome_key?_iff.1 (by simp [hkey])⟩

theorem Inv.covers_link (h : g.Inv) {n : Nat} {a : Arc} (hn : g.link.net.arc? n = some a)
    {source target : Nat} {kind : DependencyKind} (hkey : a.key? = some (source, target, kind)) :
    Arc.Covers ((g.declared source target kind).map (newArc source target)) a := by
  have hmem : a ∈ Keyed.merge Arc.key? Arc.join (g.pending.filterMap g.arcOf?) := by
    rw [← h.reverse_links_link, List.mem_reverse]
    exact List.mem_map_of_mem (h.mem_links_link hn hkey)
  have hcovers := (Arc.represents_merge _).stands a hmem
  rwa [hkey, filter_arcOf?] at hcovers

/-- There is an arc for the dependencies of a kind between two vertices just if one is declared. -/
theorem Inv.exists_arc_link_iff (h : g.Inv) (source target : Nat) (kind : DependencyKind) :
    (∃ n a, g.link.net.arc? n = some a ∧ a.key? = some (source, target, kind)) ↔
      ∃ d ∈ g.pending, d.kind = kind ∧ g.scanEnds? d = some (source, target) := by
  constructor
  · rintro ⟨n, a, hn, hkey⟩
    obtain ⟨b, hb, -⟩ := (h.covers_link hn hkey).confidence
    obtain ⟨d, hd, -⟩ := List.mem_map.1 hb
    obtain ⟨hmem, hends⟩ := List.mem_filter.1 hd
    exact ⟨d, hmem, by simpa using hends⟩
  · rintro ⟨d, hd, rfl, hends⟩
    have hnew : newArc source target d ∈ g.pending.filterMap g.arcOf? :=
      List.mem_filterMap.2 ⟨d, hd, by rw [arcOf?, hends]; rfl⟩
    -- The key of the one dependency is among the keys of the merged arcs.
    have hkey := (Keyed.mem_map_key_merge Arc.keepsKey_join).2 (List.mem_map_of_mem hnew)
    rw [← h.reverse_links_link, List.mem_map] at hkey
    obtain ⟨a, ha, hkey⟩ := hkey
    obtain ⟨e, he, rfl⟩ := List.mem_map.1 (List.mem_reverse.1 ha)
    exact ⟨e.1, e.2, h.link.arc?_eq_some_iff.2 (Net.mem_links.1 he).1, hkey⟩

theorem Inv.isLinkingOf_link (h : g.Inv) : g.IsLinkingOf g.link := by
  obtain ⟨arcs, linked, unresolved, heq⟩ := exists_link_eq g
  exact
    { vertices := by rw [heq]
      pending := by rw [heq]
      order := ⟨h.listed_qualified, h.listed_simple⟩
      exists_arc_iff := h.exists_arc_link_iff
      unique := fun n a m b key hn hm ha hb =>
        (Prod.mk.inj (h.link.eq_of_key?_eq (h.mem_links_link hn ha) (h.mem_links_link hm hb)
          (ha.trans hb.symm))).1
      line := fun n a source target kind hn hkey => by
        simpa [newArc, Function.comp_def] using (h.covers_link hn hkey).line
      confidence := fun n a source target kind hn hkey => by
        have hcovers := h.covers_link hn hkey
        refine ⟨?_, by simpa [newArc, List.filterMap_map, Function.comp_def] using hcovers.rank⟩
        simpa [newArc] using hcovers.confidence
      unresolved := (h.unlinked.unresolved_foldl g.pending).trans (Nat.zero_add _) }

/-- **Linking makes one edge for the dependencies of each kind between two vertices, and counts the
dependencies without an edge.** -/
theorem link_of_reachable {issued : List Nat} (h : Reachable issued g) : g.IsLinkingOf g.link :=
  h.inv.isLinkingOf_link

/-- Two calls share an edge to the first symbol that their target is the end of, a third comes from
no symbol and so from its file; one call leads back to where it comes from, and one nowhere. -/
theorem link_of_reachable_sharedEdge :
    let symbol (name : String) : Symbol :=
      { name := Dotted.lastSegment name, qualifiedName := name, kind := .method, startLine := 1
        endLine := 9, isExported := true, visibility := .everyone, signature := none }
    let call (fromSymbol toSymbol : String) (line : Nat) (confidence : Single) : Dependency :=
      { fromSymbol, toSymbol, kind := .calls, line, confidence }
    let callee : Findings := { symbols := [symbol "M.B.Go", symbol "N.B.Go"] }
    let caller : Findings :=
      { symbols := [symbol "N.A.Run"]
        dependencies := [call "N.A.Run" "B.Go" 7 .zero, call "N.A.Run" "B.Go" 3 .one,
          call "N.A" "Go" 5 .one, call "N.A.Run" "Run" 8 .one, call "N.A.Run" "Stop" 9 .one] }
    let g := ((({} : Atlas).ingest none ⟨"B.cs"⟩ callee []).2.ingest none ⟨"A.cs"⟩ caller []).2
    Reachable [] g ∧ g.link.net.links.map Prod.snd =
        [⟨3, 1, ⟨.depends .calls, 5, .one⟩⟩, ⟨4, 1, ⟨.depends .calls, 3, .one⟩⟩] ∧
      g.link.unresolved = 2 ∧ g.IsLinkingOf g.link := by
  intro symbol call callee caller g
  have hg : Reachable [] g :=
    .ingest none _ caller [] (.ingest none _ callee [] .empty (by simp)) (by simp)
  exact ⟨hg, by decide +kernel, by decide +kernel, link_of_reachable hg⟩

end Atlas

end SymbolAtlas
