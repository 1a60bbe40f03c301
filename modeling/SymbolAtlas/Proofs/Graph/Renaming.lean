import Mathlib.Tactic
import SymbolAtlas.Graph.Query
import SymbolAtlas.Proofs.Graph.Linking

/-!
# Atlases with other numbers

Two atlases may hold the same files and symbols, in the same order, under different numbers. A
`Renaming` takes the numbers of one to those of the other. It takes the ends of a dependency to its
ends (`Renaming.ends?`), hence linking to linking (`Renaming.link`), and so the two atlases answer
alike (`LinkRenaming.sameAnswers`). Repositories are left aside: no dependency and no name leads to them.
-/

namespace SymbolAtlas

/-- With the same values in the same order, keys are taken to keys. -/
theorem exists_rename {α : Type} {l l' : List (Nat × α)} (hl : (l.map Prod.fst).Nodup)
    (h : l'.map Prod.snd = l.map Prod.snd) : ∃ f : Nat → Nat, l' = l.map fun e => (f e.1, e.2) := by
  induction l generalizing l' with
  | nil =>
    refine ⟨id, ?_⟩
    simpa using h
  | cons e l ih =>
    obtain ⟨e', l', rfl, he, htail⟩ := List.map_eq_cons_iff.1 h
    obtain ⟨hfresh, hnodup⟩ := List.nodup_cons.1 hl
    obtain ⟨f, rfl⟩ := ih hnodup htail
    refine ⟨Function.update f e.1 e'.1, ?_⟩
    rw [List.map_cons, Function.update_self]
    refine congrArg₂ List.cons (Prod.ext rfl he) (List.map_congr_left fun a ha => ?_)
    have hne : a.1 ≠ e.1 := fun heq => hfresh (heq ▸ List.mem_map_of_mem ha)
    rw [Function.update_of_ne hne]

namespace Atlas

/-- The files and symbols of an atlas with their numbers, the newest first. -/
def fileRows (g : Atlas) : List (Nat × Vertex) := g.rows.filter fun e => e.2.kind ≠ .repository

/-- The number of a file or a symbol. -/
def Holds (g : Atlas) (n : Nat) : Prop := ∃ v, (n, v) ∈ g.fileRows

theorem mem_fileRows {g : Atlas} {e : Nat × Vertex} :
    e ∈ g.fileRows ↔ e ∈ g.rows ∧ e.2.kind ≠ .repository := by
  simp [fileRows]

theorem Inv.nodup_fileRows {g : Atlas} (h : g.Inv) : (g.fileRows.map Prod.fst).Nodup :=
  h.wf.vertices.nodup.sublist (List.filter_sublist.map Prod.fst)

theorem holds_of_isSymbol {g : Atlas} {n : Nat} (h : ∃ v, (n, v) ∈ g.rows ∧ v.isSymbol) :
    g.Holds n := by
  obtain ⟨v, hmem, hv⟩ := h
  obtain ⟨kind, hkind⟩ := Vertex.isSymbol_iff.1 hv
  exact ⟨v, mem_fileRows.2 ⟨hmem, by simp [hkind]⟩⟩

theorem Inv.holds_of_source? {g : Atlas} (h : g.Inv) {source : String} {path : Path} {n : Nat}
    (hn : g.source? source path = some n) : g.Holds n := by
  obtain ⟨v, hmem, hkind⟩ := h.kind_of_source? hn
  exact ⟨v, mem_fileRows.2 ⟨hmem, hkind⟩⟩

theorem Inv.holds_of_target? {g : Atlas} (h : g.Inv) {target : String} {path : Path} {n : Nat}
    (hn : g.target? target path = some n) : g.Holds n :=
  holds_of_isSymbol (h.isSymbol_of_target? hn)

theorem Inv.holds_of_mem_links {g : Atlas} (h : g.Inv) {a : Arc}
    (ha : a ∈ g.net.links.map Prod.snd) : g.Holds a.source ∧ g.Holds a.target := by
  obtain ⟨e, he, rfl⟩ := List.mem_map.1 ha
  obtain ⟨-, ⟨v, hv, hkind⟩, hsymbol⟩ := h.links e he
  exact ⟨⟨v, mem_fileRows.2 ⟨hv, hkind⟩⟩, holds_of_isSymbol hsymbol⟩

theorem holds_of_mem_list {g : Atlas} {ix : Index String (List Nat)} {name : Vertex → String}
    (hix : Lists ix name g.rows) {s : String} {n : Nat} (hn : n ∈ ix.list s) : g.Holds n := by
  obtain ⟨v, hmem, hv, -⟩ := hix.mem_list.1 hn
  exact holds_of_isSymbol ⟨v, hmem, hv⟩

/-- The function `f` takes the numbers of files and symbols in `g` to those in `g'`. -/
structure Renaming (f : Nat → Nat) (g g' : Atlas) : Prop where
  inv : g.Inv
  inv' : g'.Inv
  rows : g'.fileRows = g.fileRows.map fun e => (f e.1, e.2)

namespace Renaming

variable {f : Nat → Nat} {g g' : Atlas}

theorem exists_of_map_snd_eq (h : g.Inv) (h' : g'.Inv)
    (hrows : g'.fileRows.map Prod.snd = g.fileRows.map Prod.snd) : ∃ f, Renaming f g g' := by
  obtain ⟨f, hf⟩ := exists_rename h.nodup_fileRows hrows
  exact ⟨f, h, h', hf⟩

/-! ### Looking up -/

theorem inj (h : Renaming f g g') {n m : Nat} (hn : g.Holds n) (hm : g.Holds m)
    (heq : f n = f m) : n = m := by
  obtain ⟨v, hv⟩ := hn
  obtain ⟨w, hw⟩ := hm
  have hnodup := h.inv'.nodup_fileRows
  rw [h.rows, List.map_map] at hnodup
  exact congrArg Prod.fst (List.inj_on_of_nodup_map hnodup hv hw heq)

theorem eq_iff (h : Renaming f g g') {n m : Nat} (hn : g.Holds n) (hm : g.Holds m) :
    f n = f m ↔ n = m :=
  ⟨h.inj hn hm, congrArg f⟩

theorem vertex? (h : Renaming f g g') {n : Nat} (hn : g.Holds n) :
    g'.net.vertex? (f n) = g.net.vertex? n := by
  obtain ⟨v, hv⟩ := hn
  have hv' : (f n, v) ∈ g'.fileRows := h.rows ▸ List.mem_map_of_mem (f := fun e => (f e.1, e.2)) hv
  have hget : g.net.vertex? n = some v :=
    h.inv.wf.vertices.get?_eq_some_iff.2 (mem_fileRows.1 hv).1
  have hget' : g'.net.vertex? (f n) = some v :=
    h.inv'.wf.vertices.get?_eq_some_iff.2 (mem_fileRows.1 hv').1
  rw [hget, hget']

/-- An index by name lists the renamed numbers in the same order. -/
theorem list (h : Renaming f g g') {ix ix' : Index String (List Nat)} {name : Vertex → String}
    (hix : Lists ix name g.rows) (hix' : Lists ix' name g'.rows) (s : String) :
    ix'.list s = (ix.list s).map f := by
  have hsymbols : ∀ g : Atlas, symbolsNamed g.rows name s =
      (g.fileRows.filter fun e => e.2.isSymbol ∧ name e.2 = s).reverse := by
    intro g
    rw [symbolsNamed, fileRows, List.filter_filter]
    congr 1
    refine List.filter_congr fun e _ => ?_
    by_cases hv : e.2.isSymbol
    · obtain ⟨kind, hkind⟩ := Vertex.isSymbol_iff.1 hv
      simp [hkind]
    · simp [hv]
  rw [hix.list_eq, hix'.list_eq, hsymbols g, hsymbols g', h.rows, List.filter_map,
    ← List.map_reverse, List.map_map, List.map_map]
  rfl

theorem find?_files (h : Renaming f g g') (key : List Component) :
    g'.files.find? key = (g.files.find? key).map f := by
  have hmem : ∀ m v, v.kind = .file → ((m, v) ∈ g'.rows ↔ ∃ n, (n, v) ∈ g.rows ∧ f n = m) := by
    intro m v hkind
    have hrow := mem_fileRows (g := g') (e := (m, v))
    rw [h.rows, List.mem_map] at hrow
    constructor
    · intro hmem
      obtain ⟨⟨n, w⟩, hn, heq⟩ := hrow.2 ⟨hmem, by simp [hkind]⟩
      obtain ⟨rfl, rfl⟩ := Prod.mk.inj heq
      exact ⟨n, (mem_fileRows.1 hn).1, rfl⟩
    · rintro ⟨n, hn, rfl⟩
      exact (hrow.1 ⟨(n, v), mem_fileRows.2 ⟨hn, by simp [hkind]⟩, rfl⟩).1
  ext m
  rw [h.inv'.files.find?_eq_some_iff, Option.map_eq_some_iff]
  constructor
  · rintro ⟨v, hv, hkind, hpath⟩
    obtain ⟨n, hn, rfl⟩ := (hmem m v hkind).1 hv
    exact ⟨n, h.inv.files.find?_eq_some_iff.2 ⟨v, hn, hkind, hpath⟩, rfl⟩
  · rintro ⟨n, hn, rfl⟩
    obtain ⟨v, hv, hkind, hpath⟩ := h.inv.files.find?_eq_some_iff.1 hn
    exact ⟨v, (hmem (f n) v hkind).2 ⟨n, hv, rfl⟩, hkind, hpath⟩

/-! ### Resolving -/

theorem preferFile (h : Renaming f g g') (path : Path) {candidates : List Nat}
    (hc : ∀ n ∈ candidates, g.Holds n) :
    g'.preferFile path (candidates.map f) = (g.preferFile path candidates).map f := by
  have hfind : candidates.find? ((fun n => (g'.net.vertex? n).any fun v => v.path.same path) ∘ f) =
      candidates.find? fun n => (g.net.vertex? n).any fun v => v.path.same path := by
    refine List.find?_congr fun n hn => ?_
    rw [Function.comp, h.vertex? (hc n hn)]
  rw [Atlas.preferFile, Atlas.preferFile, List.find?_map, List.head?_map, Option.map_or, hfind]

theorem named? (h : Renaming f g g') (name : String) (path : Path) :
    g'.named? name path = (g.named? name path).map f := by
  rw [Atlas.named?, Atlas.named?, h.list h.inv.qualified h.inv'.qualified]
  exact h.preferFile path fun n => holds_of_mem_list h.inv.qualified

theorem endingIn (h : Renaming f g g') (target : String) :
    g'.endingIn target = (g.endingIn target).map f := by
  simp only [Atlas.endingIn]
  split
  · rfl
  · rw [h.list h.inv.simple h.inv'.simple, List.filter_map]
    congr 1
    refine List.filter_congr fun n hn => ?_
    rw [Function.comp, h.vertex? (holds_of_mem_list h.inv.simple hn)]

theorem target? (h : Renaming f g g') (target : String) (path : Path) :
    g'.target? target path = (g.target? target path).map f := by
  have hsimple : ∀ n ∈ g.simple.list (Dotted.lastSegment target), g.Holds n := fun n =>
    holds_of_mem_list h.inv.simple
  rw [Atlas.target?, Atlas.target?, h.named?, h.endingIn, h.list h.inv.simple h.inv'.simple,
    h.preferFile path fun n hn => hsimple n (mem_of_mem_endingIn hn), h.preferFile path hsimple,
    Option.map_or, Option.map_or]

theorem source? (h : Renaming f g g') (source : String) (path : Path) :
    g'.source? source path = (g.source? source path).map f := by
  rw [Atlas.source?, Atlas.source?, h.named?, h.find?_files, Option.map_or]

/-- A dependency has the renamed ends. -/
theorem ends? (h : Renaming f g g') (d : Pending) :
    g'.ends? d = (g.ends? d).map fun ends => (f ends.1, f ends.2) := by
  simp only [Atlas.ends?, h.source?, h.target?]
  cases hsource : g.source? d.fromSymbol d.path with
  | none => rfl
  | some source =>
    cases htarget : g.target? d.toSymbol d.path with
    | none => rfl
    | some target =>
      have heq := h.eq_iff (h.inv.holds_of_source? hsource) (h.inv.holds_of_target? htarget)
      simp only [Option.map_some, heq]
      split <;> rfl

/-! ### Linking -/

/-- The renamed arcs stand for the renamed dependencies. -/
theorem key?_rename_iff (h : Renaming f g g') {a : Arc} (ha : g.Holds a.source ∧ g.Holds a.target)
    {source target : Nat} (hsource : g.Holds source) (htarget : g.Holds target)
    {kind : DependencyKind} :
    (a.rename f).key? = some (f source, f target, kind) ↔ a.key? = some (source, target, kind) := by
  rw [Arc.key?_rename_eq_some_iff, Arc.key?_eq_some_iff, h.eq_iff ha.1 hsource,
    h.eq_iff ha.2 htarget]

theorem joinArc_rename (h : Renaming f g g') {arcs : List Arc}
    (harcs : ∀ a ∈ arcs, g.Holds a.source ∧ g.Holds a.target) {source target : Nat}
    (hsource : g.Holds source) (htarget : g.Holds target) (d : Pending) :
    joinArc (arcs.map (Arc.rename f)) (f source) (f target) d =
      (joinArc arcs source target d).map (Arc.rename f) := by
  have hkey : ∀ a ∈ arcs, (a.rename f).key? = some (f source, f target, d.kind) ↔
      a.key? = some (source, target, d.kind) := fun a ha =>
    h.key?_rename_iff (harcs a ha) hsource htarget
  have hexists : (∃ a ∈ arcs.map (Arc.rename f), a.key? = some (f source, f target, d.kind)) ↔
      ∃ a ∈ arcs, a.key? = some (source, target, d.kind) := by
    simp only [List.mem_map, exists_exists_and_eq_and]
    exact exists_congr fun a => and_congr_right fun ha => hkey a ha
  simp only [joinArc, hexists]
  split
  · rw [List.map_map, List.map_map]
    refine List.map_congr_left fun a ha => ?_
    simp only [Function.comp, hkey a ha]
    split <;> rfl
  · rfl

end Renaming

/-- A renaming that also takes the dependencies of one atlas to those of the other, in order. -/
structure LinkRenaming (f : Nat → Nat) (g g' : Atlas) : Prop extends Renaming f g g' where
  links : g'.net.links.map Prod.snd = (g.net.links.map Prod.snd).map (Arc.rename f)
  unresolved : g'.unresolved = g.unresolved

namespace LinkRenaming

variable {f : Nat → Nat} {g g' : Atlas}

theorem linkOne (h : LinkRenaming f g g') (d : Pending) :
    LinkRenaming f (g.linkOne d) (g'.linkOne d) := by
  have hrows : (g'.linkOne d).fileRows = (g.linkOne d).fileRows.map fun e => (f e.1, e.2) := by
    simp only [fileRows, rows_linkOne]
    exact h.rows
  have hrenaming : Renaming f (g.linkOne d) (g'.linkOne d) :=
    ⟨h.inv.linkOne d, h.inv'.linkOne d, hrows⟩
  -- Both atlases find ends for the dependency, or neither does.
  have hends' := h.ends? d
  cases hends : g.ends? d with
  | none =>
    rw [hends] at hends'
    refine ⟨hrenaming, ?_, ?_⟩
    · simp only [Atlas.linkOne, hends, hends', Option.map_none]
      exact h.links
    · simp only [Atlas.linkOne, hends, hends', Option.map_none, h.unresolved]
  | some ends =>
    rw [hends] at hends'
    obtain ⟨hsource, htarget, -⟩ := ends?_eq_some_iff.1 hends
    refine ⟨hrenaming, ?_, ?_⟩
    · simp only [Atlas.linkOne, hends, hends', Option.map_some, h.inv.links_connect,
        h.inv'.links_connect, h.links]
      exact h.joinArc_rename (fun a ha => h.inv.holds_of_mem_links ha)
        (h.inv.holds_of_source? hsource) (h.inv.holds_of_target? htarget) d
    · simp only [Atlas.linkOne, hends, hends', Option.map_some, unresolved_connect]
      exact h.unresolved

theorem foldl_linkOne (h : LinkRenaming f g g') (ds : List Pending) :
    LinkRenaming f (ds.foldl Atlas.linkOne g) (ds.foldl Atlas.linkOne g') := by
  induction ds generalizing g g' with
  | nil => exact h
  | cons d ds ih => exact ih (h.linkOne d)

end LinkRenaming

/-- Linking takes renamed atlases to renamed atlases. -/
theorem Renaming.link {f : Nat → Nat} {g g' : Atlas} (h : Renaming f g g')
    (hpending : g'.pending = g.pending) : LinkRenaming f g.link g'.link := by
  have hunlinked : LinkRenaming f g.unlinked g'.unlinked :=
    { inv := h.inv.unlinked
      inv' := h.inv'.unlinked
      rows := h.rows
      links := by rw [h.inv.links_unlinked, h.inv'.links_unlinked]; rfl
      unresolved := rfl }
  rw [Atlas.link, Atlas.link, hpending]
  exact hunlinked.foldl_linkOne g.pending

/-! ### Asking -/

/-- Two atlases answer alike: to all names, in numbers, and with their entities. -/
structure SameAnswers (g g' : Atlas) : Prop where
  find : ∀ name, g.find name = g'.find name
  dependenciesOf : ∀ name, g.dependenciesOf name = g'.dependenciesOf name
  dependentsOf : ∀ name, g.dependentsOf name = g'.dependentsOf name
  census : g.census = g'.census
  entities : g.entities = g'.entities
  unresolved : g.unresolved = g'.unresolved

/-- What the arcs lead to that have one of the vertices at the near end. -/
def reached (lookup : Nat → Option Vertex) (near far : Arc → Nat) (ns : List Nat)
    (arcs : List Arc) : List (Vertex × Edge) :=
  ns.flatMap fun n => (arcs.filter fun a => near a = n).filterMap fun a =>
    (lookup (far a)).map fun v => (v, a.edge)

theorem reached_perm (lookup : Nat → Option Vertex) (near far : Arc → Nat) {ns ns' : List Nat}
    {arcs arcs' : List Arc} (hns : ns.Perm ns') (harcs : arcs.Perm arcs') :
    (reached lookup near far ns arcs).Perm (reached lookup near far ns' arcs') :=
  List.Perm.flatMap hns fun _ _ => (harcs.filter _).filterMap _

/-- The numbers do not show in what is reached. -/
theorem reached_rename {f : Nat → Nat} {lookup lookup' : Nat → Option Vertex}
    {near far : Arc → Nat} (hnear : ∀ a, near (a.rename f) = f (near a))
    (hfar : ∀ a, far (a.rename f) = f (far a)) {ns : List Nat} {arcs : List Arc}
    (hinj : ∀ a ∈ arcs, ∀ n ∈ ns, f (near a) = f n → near a = n)
    (hlookup : ∀ a ∈ arcs, lookup' (f (far a)) = lookup (far a)) :
    reached lookup' near far (ns.map f) (arcs.map (Arc.rename f)) =
      reached lookup near far ns arcs := by
  rw [reached, reached, List.flatMap_map]
  refine List.flatMap_congr fun n hn => ?_
  have hfilter : (arcs.map (Arc.rename f)).filter (fun a => near a = f n) =
      (arcs.filter fun a => near a = n).map (Arc.rename f) := by
    rw [List.filter_map]
    refine congrArg (List.map _) (List.filter_congr fun a ha => ?_)
    simp only [Function.comp, hnear]
    exact decide_eq_decide.2 ⟨hinj a ha n hn, congrArg f⟩
  rw [hfilter, List.filterMap_map]
  refine List.filterMap_congr fun a ha => ?_
  simp only [Function.comp, hfar, hlookup a (List.mem_of_mem_filter ha)]
  rfl

/-- What the arcs of dependency lead to that have a symbol with the name at one end. -/
def neighbors (g : Atlas) (near far : Arc → Nat) (name : String) : List (Vertex × Edge) :=
  (g.qualified.list name).flatMap fun n =>
    ((g.net.links.map Prod.snd).filter fun a => near a = n).filterMap fun a =>
      (g.net.vertex? (far a)).map fun v => (v, a.edge)

theorem neighbors_eq_reached (g : Atlas) (near far : Arc → Nat) (name : String) :
    g.neighbors near far name =
      reached g.net.vertex? near far (g.qualified.list name) (g.net.links.map Prod.snd) := rfl

theorem dependenciesOf_eq_neighbors (g : Atlas) (name : String) :
    g.dependenciesOf name = g.neighbors Arc.source Arc.target name := by
  refine List.flatMap_congr fun n _ => ?_
  rw [List.filter_map, List.filterMap_map, Net.links, Net.outgoing, List.filter_comm]
  rfl

theorem dependentsOf_eq_neighbors (g : Atlas) (name : String) :
    g.dependentsOf name = g.neighbors Arc.target Arc.source name := by
  refine List.flatMap_congr fun n _ => ?_
  rw [List.filter_map, List.filterMap_map, Net.links, Net.incoming, List.filter_comm]
  rfl

/-- A census counts files and symbols among the rows of both, and the arcs of dependency. -/
theorem Inv.census_eq {g : Atlas} (h : g.Inv) :
    g.census =
      { repositories := ((g.rows.map Prod.snd).filter fun v => v.kind = .repository).length
        files := (g.fileRows.map Prod.snd).countP fun v => v.kind = .file
        symbols := (g.fileRows.map Prod.snd).countP Vertex.isSymbol
        dependencyEdges := (g.net.links.map Prod.snd).length
        unresolved := g.unresolved
        entities := g.entities.length } := by
  have hcount : ∀ p : Vertex → Bool, (∀ v, p v → v.kind ≠ .repository) →
      (g.fileRows.map Prod.snd).countP p = (g.rows.map Prod.snd).countP p := by
    intro p hp
    rw [List.countP_map, List.countP_map, fileRows, List.countP_filter]
    refine List.countP_congr fun e _ => ?_
    simp only [Function.comp, Bool.and_eq_true, decide_eq_true_eq]
    exact ⟨fun hpe => hpe.1, fun hpe => ⟨hpe, hp e.2 hpe⟩⟩
  have hlinks : (g.net.links.map Prod.fst).Nodup :=
    h.wf.arcs.nodup.sublist (List.filter_sublist.map Prod.fst)
  have hsize := h.linked.size_eq hlinks fun a ha => Arc.isSome_key?_iff.2 (Net.mem_links.1 ha).2
  rw [hcount _ fun v hv => by simp_all, hcount _ fun v hv => by
    obtain ⟨kind, hkind⟩ := Vertex.isSymbol_iff.1 hv
    simp [hkind]]
  simp only [census, hsize, List.length_map, List.countP_eq_length_filter]

namespace LinkRenaming

variable {f : Nat → Nat} {g g' : Atlas}

theorem find_eq (h : LinkRenaming f g g') (name : String) : g.find name = g'.find name := by
  rw [find, find, h.list h.inv.qualified h.inv'.qualified, List.filterMap_map]
  refine List.filterMap_congr fun n hn => ?_
  exact (h.vertex? (holds_of_mem_list h.inv.qualified hn)).symm

theorem neighbors_eq (h : LinkRenaming f g g') {near far : Arc → Nat}
    (hnear : ∀ a, near (a.rename f) = f (near a)) (hfar : ∀ a, far (a.rename f) = f (far a))
    (hholds : ∀ a ∈ g.net.links.map Prod.snd, g.Holds (near a) ∧ g.Holds (far a)) (name : String) :
    g.neighbors near far name = g'.neighbors near far name := by
  rw [neighbors_eq_reached, neighbors_eq_reached, h.list h.inv.qualified h.inv'.qualified, h.links]
  refine (reached_rename hnear hfar (fun a ha n hn => ?_) fun a ha => ?_).symm
  · exact h.inj (hholds a ha).1 (holds_of_mem_list h.inv.qualified hn)
  · exact h.vertex? (hholds a ha).2

/-- Renamed atlases with the same repositories and entities answer alike. -/
theorem sameAnswers (h : LinkRenaming f g g')
    (hrepositories : (g'.rows.map Prod.snd).filter (fun v => v.kind = .repository) =
      (g.rows.map Prod.snd).filter fun v => v.kind = .repository)
    (hentities : g'.entities = g.entities) : SameAnswers g g' where
  find := h.find_eq
  dependenciesOf name := by
    rw [dependenciesOf_eq_neighbors, dependenciesOf_eq_neighbors]
    exact h.neighbors_eq (fun _ => rfl) (fun _ => rfl) (fun a ha => h.inv.holds_of_mem_links ha) name
  dependentsOf name := by
    rw [dependentsOf_eq_neighbors, dependentsOf_eq_neighbors]
    exact h.neighbors_eq (fun _ => rfl) (fun _ => rfl)
      (fun a ha => (h.inv.holds_of_mem_links ha).symm) name
  census := by
    have hfiles : g'.fileRows.map Prod.snd = g.fileRows.map Prod.snd := by
      rw [h.rows, List.map_map]
      rfl
    rw [h.inv.census_eq, h.inv'.census_eq, hrepositories, hfiles, h.links, h.unresolved, hentities]
    simp only [List.length_map]
  entities := hentities.symm
  unresolved := h.unresolved.symm

end LinkRenaming

end Atlas

end SymbolAtlas
