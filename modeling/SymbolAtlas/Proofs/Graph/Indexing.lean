import Mathlib.Tactic
import SymbolAtlas.Graph.Link
import SymbolAtlas.Proofs.Graph.Index
import SymbolAtlas.Proofs.Graph.Net

/-!
# What the indexes of an atlas describe

Each index of an atlas is a view of the lists of its vertices and arcs:

* `Lists` — an index by name lists the symbols with a name, the oldest first;
* `Maps` — an index by key gives the one item with a key: by path the one vertex of a kind
  (`Locates`), by ends and kind the one arc of dependency (`Joins`).

For each of them it is shown what adding and taking out a vertex or an arc does.
-/

namespace SymbolAtlas

/-! ### Indexes by name -/

/-- The symbols whose name, as `name` reads it, is `s`, the oldest first. -/
def symbolsNamed (vs : List (Nat × Vertex)) (name : Vertex → String) (s : String) :
    List (Nat × Vertex) :=
  (vs.filter fun e => e.2.isSymbol ∧ name e.2 = s).reverse

theorem mem_symbolsNamed {vs : List (Nat × Vertex)} {name : Vertex → String} {s : String}
    {e : Nat × Vertex} :
    e ∈ symbolsNamed vs name s ↔ e ∈ vs ∧ e.2.isSymbol ∧ name e.2 = s := by
  simp [symbolsNamed]

/-- The index lists the symbols under their names, the oldest first. -/
structure Lists (ix : Index String (List Nat)) (name : Vertex → String)
    (vs : List (Nat × Vertex)) : Prop where
  keyed : ix.Keyed
  full : ix.Full
  list_eq : ∀ s, ix.list s = (symbolsNamed vs name s).map Prod.fst

namespace Lists

variable {ix : Index String (List Nat)} {name : Vertex → String} {vs : List (Nat × Vertex)}
  {n : Nat} {v : Vertex}

theorem empty : Lists {} name [] where
  keyed := Index.keyed_empty
  full := Index.full_empty
  list_eq _ := rfl

theorem add (h : Lists ix name vs) (hv : v.isSymbol) :
    Lists (ix.add (name v) n) name ((n, v) :: vs) where
  keyed := h.keyed.add _ _
  full := h.full.add _ _
  list_eq s := by
    rw [Index.list_add, h.list_eq]
    by_cases hs : s = name v
    · simp [symbolsNamed, hv, hs]
    · simp [symbolsNamed, hs, Ne.symm hs]

theorem cons_of_not_isSymbol (h : Lists ix name vs) (hv : v.isSymbol = false) :
    Lists ix name ((n, v) :: vs) where
  keyed := h.keyed
  full := h.full
  list_eq s := by
    rw [h.list_eq]
    simp [symbolsNamed, hv]

/-- An item taken out of the index is the symbol taken out of the vertices. -/
theorem remove (h : Lists ix name vs) (hvs : (vs.map Prod.fst).Nodup) (hmem : (n, v) ∈ vs) :
    Lists (ix.remove (name v) n) name (vs.filter fun e => e.1 ≠ n) where
  keyed := h.keyed.remove _ _
  full := h.full.remove _ _
  list_eq s := by
    rw [Index.list_remove, h.list_eq]
    by_cases hs : s = name v
    · rw [if_pos hs, List.filter_map, symbolsNamed, symbolsNamed, List.filter_reverse,
        List.filter_filter, List.filter_filter]
      congr 2
      exact List.filter_congr fun e _ => Bool.and_comm _ _
    · -- The vertex under `n` has another name, so it is not listed under `s`.
      rw [if_neg hs, symbolsNamed, symbolsNamed, List.filter_filter]
      congr 2
      refine List.filter_congr fun e he => ?_
      by_cases hn : e.1 = n
      · obtain rfl : e = (n, v) := List.inj_on_of_nodup_map hvs he hmem hn
        simp [Ne.symm hs]
      · simp [hn]

theorem filter_of_not_isSymbol (h : Lists ix name vs) (hvs : (vs.map Prod.fst).Nodup)
    (hmem : (n, v) ∈ vs) (hv : v.isSymbol = false) :
    Lists ix name (vs.filter fun e => e.1 ≠ n) where
  keyed := h.keyed
  full := h.full
  list_eq s := by
    rw [h.list_eq, symbolsNamed, symbolsNamed, List.filter_filter]
    congr 2
    refine List.filter_congr fun e he => ?_
    by_cases hn : e.1 = n
    · obtain rfl : e = (n, v) := List.inj_on_of_nodup_map hvs he hmem hn
      simp [hv]
    · simp [hn]

theorem mem_list (h : Lists ix name vs) {s : String} :
    n ∈ ix.list s ↔ ∃ v, (n, v) ∈ vs ∧ v.isSymbol ∧ name v = s := by
  rw [h.list_eq, List.mem_map]
  constructor
  · rintro ⟨⟨m, v⟩, hmem, rfl⟩
    exact ⟨v, mem_symbolsNamed.1 hmem⟩
  · rintro ⟨v, hmem⟩
    exact ⟨(n, v), mem_symbolsNamed.2 hmem, rfl⟩

theorem nodup_list (h : Lists ix name vs) (hvs : (vs.map Prod.fst).Nodup) (s : String) :
    (ix.list s).Nodup := by
  rw [h.list_eq, symbolsNamed, List.map_reverse, List.nodup_reverse]
  exact hvs.sublist (List.filter_sublist.map Prod.fst)

end Lists

/-! ### Indexes by key -/

/-- The index gives, for the key of an item, the number of the one item with that key. -/
structure Maps {κ α : Type} [DecidableEq κ] (ix : Index κ Nat) (key? : α → Option κ)
    (items : List (Nat × α)) : Prop where
  keyed : ix.Keyed
  find?_iff : ∀ key n, ix.find? key = some n ↔ ∃ a, (n, a) ∈ items ∧ key? a = some key

namespace Maps

variable {κ α : Type} [DecidableEq κ] {ix : Index κ Nat} {key? : α → Option κ}
  {items : List (Nat × α)} {n : Nat} {a : α}

theorem empty : Maps {} key? [] where
  keyed := Index.keyed_empty
  find?_iff := by simp

theorem find?_eq_none (h : Maps ix key? items) {key : κ} (hitems : ∀ e ∈ items, key? e.2 ≠ some key) :
    ix.find? key = none := by
  rw [Option.eq_none_iff_forall_not_mem]
  intro n hn
  obtain ⟨a, hmem, ha⟩ := (h.find?_iff _ _).1 hn
  exact hitems (n, a) hmem ha

theorem insert (h : Maps ix key? items) {key : κ} (ha : key? a = some key)
    (hnone : ix.find? key = none) : Maps (ix.insert key n) key? ((n, a) :: items) where
  keyed := h.keyed.insert _ _
  find?_iff other m := by
    rw [Index.find?_insert]
    split
    case isTrue hkey =>
      subst hkey
      constructor
      · intro hm
        obtain rfl := Option.some.inj hm
        exact ⟨a, List.mem_cons_self, ha⟩
      · rintro ⟨b, hmem, hb⟩
        rcases List.mem_cons.1 hmem with heq | hmem
        · rw [(Prod.mk.inj heq).1]
        · rw [(h.find?_iff _ _).2 ⟨b, hmem, hb⟩] at hnone
          cases hnone
    case isFalse hkey =>
      rw [h.find?_iff]
      constructor
      · rintro ⟨b, hmem, hb⟩
        exact ⟨b, List.mem_cons_of_mem _ hmem, hb⟩
      · rintro ⟨b, hmem, hb⟩
        rcases List.mem_cons.1 hmem with heq | hmem
        · rw [(Prod.mk.inj heq).2, ha] at hb
          exact absurd (Option.some.inj hb).symm hkey
        · exact ⟨b, hmem, hb⟩

/-- An item without a key may come. -/
theorem cons_of_none (h : Maps ix key? items) (ha : key? a = none) :
    Maps ix key? ((n, a) :: items) where
  keyed := h.keyed
  find?_iff key m := by
    rw [h.find?_iff]
    constructor
    · rintro ⟨b, hmem, hb⟩
      exact ⟨b, List.mem_cons_of_mem _ hmem, hb⟩
    · rintro ⟨b, hmem, hb⟩
      rcases List.mem_cons.1 hmem with heq | hmem
      · rw [(Prod.mk.inj heq).2, ha] at hb
        cases hb
      · exact ⟨b, hmem, hb⟩

/-- Items without a key may go. -/
theorem filter (h : Maps ix key? items) {p : Nat × α → Bool}
    (hp : ∀ e ∈ items, (key? e.2).isSome → p e) : Maps ix key? (items.filter p) where
  keyed := h.keyed
  find?_iff key m := by
    rw [h.find?_iff]
    constructor
    · rintro ⟨b, hmem, hb⟩
      exact ⟨b, List.mem_filter.2 ⟨hmem, hp _ hmem (by simp [hb])⟩, hb⟩
    · rintro ⟨b, hmem, hb⟩
      exact ⟨b, List.mem_of_mem_filter hmem, hb⟩

/-- With a key, the item with that key goes. -/
theorem erase (h : Maps ix key? items) {key : κ} {p : Nat × α → Bool}
    (hp : ∀ e ∈ items, ∀ other, key? e.2 = some other → (p e ↔ other ≠ key)) :
    Maps (ix.erase key) key? (items.filter p) where
  keyed := h.keyed.erase key
  find?_iff other m := by
    rw [Index.find?_erase]
    split
    case isTrue hkey =>
      refine ⟨(by cases ·), ?_⟩
      rintro ⟨b, hmem, hb⟩
      obtain ⟨hin, hpe⟩ := List.mem_filter.1 hmem
      exact absurd hkey ((hp _ hin other hb).1 hpe)
    case isFalse hkey =>
      rw [h.find?_iff]
      constructor
      · rintro ⟨b, hmem, hb⟩
        exact ⟨b, List.mem_filter.2 ⟨hmem, (hp _ hmem other hb).2 hkey⟩, hb⟩
      · rintro ⟨b, hmem, hb⟩
        exact ⟨b, List.mem_of_mem_filter hmem, hb⟩

theorem keep (h : Maps ix key? items) {p : Nat → Bool} :
    Maps (ix.keep p) key? (items.filter fun e => p e.1) where
  keyed := h.keyed.keep p
  find?_iff key m := by
    rw [h.keyed.find?_keep, h.find?_iff]
    constructor
    · rintro ⟨⟨b, hmem, hb⟩, hp⟩
      exact ⟨b, List.mem_filter.2 ⟨hmem, hp⟩, hb⟩
    · rintro ⟨b, hmem, hb⟩
      obtain ⟨hin, hp⟩ := List.mem_filter.1 hmem
      exact ⟨⟨b, hin, hb⟩, hp⟩

/-- Items may change as long as they keep their numbers and keys. -/
theorem map (h : Maps ix key? items) {f : Nat × α → Nat × α} (hfst : ∀ e, (f e).1 = e.1)
    (hkey : ∀ e, key? (f e).2 = key? e.2) : Maps ix key? (items.map f) where
  keyed := h.keyed
  find?_iff key m := by
    rw [h.find?_iff]
    constructor
    · rintro ⟨b, hmem, hb⟩
      refine ⟨(f (m, b)).2, List.mem_map.2 ⟨(m, b), hmem, ?_⟩, (hkey _).trans hb⟩
      exact Prod.ext (hfst _) rfl
    · rintro ⟨b, hmem, hb⟩
      obtain ⟨⟨n, c⟩, hin, heq⟩ := List.mem_map.1 hmem
      have hn := hfst (n, c)
      rw [heq] at hn
      obtain rfl : m = n := hn
      refine ⟨c, hin, ?_⟩
      rw [← hkey (m, c), heq, hb]

/-- Where every item has a key, the index has as many keys as there are items. -/
theorem size_eq (h : Maps ix key? items) (hnodup : (items.map Prod.fst).Nodup)
    (hitems : ∀ e ∈ items, (key? e.2).isSome) : ix.size = items.length := by
  have hmem : ∀ {key n}, (key, n) ∈ ix.entries ↔ ∃ a, (n, a) ∈ items ∧ key? a = some key := by
    intro key n
    rw [← h.keyed.find?_eq_some_iff, h.find?_iff]
  have hentries : (ix.entries.map Prod.snd).Nodup := by
    refine List.Nodup.map_on ?_ h.keyed.of_map
    rintro ⟨key, n⟩ hkey ⟨other, m⟩ hother rfl
    obtain ⟨a, ha, hakey⟩ := hmem.1 hkey
    obtain ⟨b, hb, hbkey⟩ := hmem.1 hother
    obtain rfl : a = b := (Prod.mk.inj (List.inj_on_of_nodup_map hnodup ha hb rfl)).2
    rw [hakey, Option.some.injEq] at hbkey
    rw [hbkey]
  have hperm : (ix.entries.map Prod.snd).Perm (items.map Prod.fst) := by
    rw [List.perm_ext_iff_of_nodup hentries hnodup]
    intro n
    constructor
    · intro hn
      obtain ⟨⟨key, m⟩, hkey, rfl⟩ := List.mem_map.1 hn
      obtain ⟨a, ha, -⟩ := hmem.1 hkey
      exact List.mem_map_of_mem ha
    · intro hn
      obtain ⟨⟨m, a⟩, ha, rfl⟩ := List.mem_map.1 hn
      obtain ⟨key, hkey⟩ := Option.isSome_iff_exists.1 (hitems _ ha)
      exact List.mem_map.2 ⟨(key, m), hmem.2 ⟨a, ha, hkey⟩, rfl⟩
  simpa [Index.size] using hperm.length_eq

end Maps

/-! ### Indexes by path -/

/-- The path of a vertex of the kind. -/
def Vertex.pathAs? (kind : VertexKind) (v : Vertex) : Option (List Component) :=
  if v.kind = kind then some v.path.components else none

theorem Vertex.pathAs?_eq_some_iff {kind : VertexKind} {v : Vertex} {key : List Component} :
    v.pathAs? kind = some key ↔ v.kind = kind ∧ v.path.components = key := by
  simp [pathAs?]

theorem Vertex.pathAs?_of_ne {kind : VertexKind} {v : Vertex} (h : v.kind ≠ kind) :
    v.pathAs? kind = none :=
  if_neg h

theorem Vertex.pathAs?_ofRepository (root : Path) :
    (Vertex.ofRepository root).pathAs? .repository = some root.components :=
  if_pos rfl

theorem Vertex.pathAs?_ofFile (path : Path) :
    (Vertex.ofFile path).pathAs? .file = some path.components :=
  if_pos rfl

/-- The index gives the one vertex of a kind with a path. -/
abbrev Locates (ix : Index (List Component) Nat) (kind : VertexKind) (vs : List (Nat × Vertex)) :
    Prop :=
  Maps ix (Vertex.pathAs? kind) vs

theorem Locates.find?_eq_some_iff {ix : Index (List Component) Nat} {kind : VertexKind}
    {vs : List (Nat × Vertex)} (h : Locates ix kind vs) {key : List Component} {n : Nat} :
    ix.find? key = some n ↔ ∃ v, (n, v) ∈ vs ∧ v.kind = kind ∧ v.path.components = key := by
  simp only [h.find?_iff, Vertex.pathAs?_eq_some_iff]

/-! ### The index of dependencies -/

/-- The ends of a dependency and its kind. -/
def Arc.key? (a : Arc) : Option (Nat × Nat × DependencyKind) :=
  a.edge.dependency?.map fun kind => (a.source, a.target, kind)

theorem Arc.key?_eq_some_iff {a : Arc} {source target : Nat} {kind : DependencyKind} :
    a.key? = some (source, target, kind) ↔
      a.source = source ∧ a.target = target ∧ a.edge.kind = .depends kind := by
  obtain ⟨s, t, ⟨k, line, confidence⟩⟩ := a
  cases k <;> simp [key?, Edge.dependency?]

theorem Arc.isSome_key?_iff {a : Arc} : a.key?.isSome ↔ a.edge.kind ≠ .contains := by
  obtain ⟨s, t, ⟨k, line, confidence⟩⟩ := a
  cases k <;> simp [key?, Edge.dependency?]

/-- The arc between the same vertices under other numbers. -/
def Arc.rename (f : Nat → Nat) (a : Arc) : Arc := ⟨f a.source, f a.target, a.edge⟩

theorem Arc.key?_rename_eq_some_iff {f : Nat → Nat} {a : Arc} {source target : Nat}
    {kind : DependencyKind} :
    (a.rename f).key? = some (source, target, kind) ↔
      f a.source = source ∧ f a.target = target ∧ a.edge.kind = .depends kind :=
  Arc.key?_eq_some_iff

/-- The index gives the one arc of dependency with given ends and kind. -/
abbrev Joins (ix : Index (Nat × Nat × DependencyKind) Nat) (links : List (Nat × Arc)) : Prop :=
  Maps ix Arc.key? links

end SymbolAtlas
