import Mathlib.Tactic
import SymbolAtlas.Proofs.Graph.Invariant

/-!
# Files come and go

Taking a file out and putting it in keep the invariant.

* `Inv.rows_removeFile` — a file goes with just the vertices that lie in it.
* `Inv.removeFile` — the indexes describe what is left.
* `Inv.ingest` — so they do when a file is ingested, which is to take it out, to add its vertex and
  then, one by one, its symbols.
-/

namespace SymbolAtlas.Atlas

variable {g : Atlas}

/-! ### The symbols of a file -/

theorem Named.removeSymbol (h : g.Named) (n : Nat) : (g.removeSymbol n).Named := by
  cases hn : g.net.vertex? n with
  | none => simpa only [Atlas.removeSymbol, hn] using h
  | some v =>
    have hmem := Pool.mem_items_of_get? hn
    have hnodup := h.wf.vertices.nodup
    simp only [Atlas.removeSymbol, hn]
    refine ⟨h.wf.eraseVertex n, ?_, ?_⟩
    · rw [rows, (h.wf.items_eraseVertex n).1]
      exact h.qualified.remove hnodup hmem
    · rw [rows, (h.wf.items_eraseVertex n).1]
      exact h.simple.remove hnodup hmem

/-- Taking out symbols changes the graph and the two indexes by name only. -/
theorem exists_foldl_removeSymbol_eq (g : Atlas) (ns : List Nat) :
    ∃ qualified simple, ns.foldl removeSymbol g =
      { g with net := g.net.eraseVertices ns, qualified, simple } := by
  induction ns generalizing g with
  | nil => exact ⟨g.qualified, g.simple, rfl⟩
  | cons n ns ih =>
    obtain ⟨qualified, simple, heq⟩ := ih (g.removeSymbol n)
    refine ⟨qualified, simple, ?_⟩
    rw [List.foldl_cons, heq]
    cases hn : g.net.vertex? n with
    | none =>
      have herase : g.net.eraseVertex n = g.net := by simp only [Net.eraseVertex, hn]
      simp only [removeSymbol, hn, Net.eraseVertices, List.foldl_cons, herase]
    | some v => simp only [removeSymbol, hn, Net.eraseVertices, List.foldl_cons]

theorem Named.foldl_removeSymbol (h : g.Named) (ns : List Nat) :
    (ns.foldl Atlas.removeSymbol g).Named := by
  induction ns generalizing g with
  | nil => exact h
  | cons n ns ih => exact ih (h.removeSymbol n)

theorem mem_members {n file : Nat} : n ∈ g.members file ↔ file ∈ g.net.homes n := by
  rw [Net.mem_homes]
  simp only [members, Net.outgoing, List.mem_map, List.mem_filter, decide_eq_true_eq]
  constructor
  · rintro ⟨a, ⟨⟨ha, hs⟩, hk⟩, ht⟩
    exact ⟨a, ha, hs, ht, hk⟩
  · rintro ⟨a, ha, hs, ht, hk⟩
    exact ⟨a, ⟨⟨ha, hs⟩, hk⟩, ht⟩

/-- A file contains nothing but symbols. -/
theorem Inv.not_mem_homes (h : g.Inv) {file : Nat} {w : Vertex} (hw : (file, w) ∈ g.rows)
    (hfile : w.kind = .file) {e : Nat × Vertex} (he : e ∈ g.rows) (hsymbol : e.2.isSymbol = false) :
    file ∉ g.net.homes e.1 := by
  have hhoused := h.housed e he
  intro hmem
  cases hkind : e.2.kind with
  | repository =>
    simp only [Housed, hkind] at hhoused
    rw [hhoused] at hmem
    cases hmem
  | file =>
    simp only [Housed, hkind] at hhoused
    rcases hhoused with hnil | ⟨r, u, hone, hu, hukind⟩
    · rw [hnil] at hmem
      cases hmem
    · rw [hone, List.mem_singleton] at hmem
      subst hmem
      rw [h.wf.vertices.eq_of_mem hu hw, hfile] at hukind
      cases hukind
  | symbol kind =>
    rw [Vertex.isSymbol_iff.2 ⟨kind, hkind⟩] at hsymbol
    cases hsymbol

theorem Inv.mem_members_iff (h : g.Inv) {path : Path} {file : Nat}
    (hfile : g.files.find? path.components = some file) {e : Nat × Vertex} (he : e ∈ g.rows) :
    e.1 ∈ g.members file ↔ e.2.isSymbol ∧ e.2.path.components = path.components := by
  obtain ⟨w, hw, hwkind, hwpath⟩ := h.files.find?_eq_some_iff.1 hfile
  rw [mem_members]
  cases hsymbol : e.2.isSymbol with
  | false => exact iff_of_false (h.not_mem_homes hw hwkind he hsymbol) (by simp)
  | true =>
    -- The one home of a symbol is the file with the path of the symbol.
    obtain ⟨f, u, hone, hu, hukind, hupath⟩ := (h.housed e he).of_isSymbol hsymbol
    have hfind := h.files.find?_eq_some_iff.2 ⟨u, hu, hukind, rfl⟩
    rw [hone, List.mem_singleton]
    constructor
    · rintro rfl
      rw [← hupath, h.wf.vertices.eq_of_mem hu hw]
      exact ⟨rfl, hwpath⟩
    · rintro ⟨-, hpath⟩
      rw [hupath, hpath, hfile] at hfind
      exact Option.some.inj hfind

theorem Inv.eq_file_iff (h : g.Inv) {path : Path} {file : Nat}
    (hfile : g.files.find? path.components = some file) {e : Nat × Vertex} (he : e ∈ g.rows) :
    e.1 = file ↔ e.2.kind = .file ∧ e.2.path.components = path.components := by
  obtain ⟨w, hw, hwkind, hwpath⟩ := h.files.find?_eq_some_iff.1 hfile
  constructor
  · rintro rfl
    rw [h.wf.vertices.eq_of_mem he hw]
    exact ⟨hwkind, hwpath⟩
  · rintro ⟨hkind, hpath⟩
    have hfind := h.files.find?_eq_some_iff.2 ⟨e.2, he, hkind, hpath⟩
    rw [hfile] at hfind
    exact (Option.some.inj hfind).symm

/-- The vertices that go with a file are those that lie in it. -/
theorem Inv.mem_members_append_iff (h : g.Inv) {path : Path} {file : Nat}
    (hfile : g.files.find? path.components = some file) {e : Nat × Vertex} (he : e ∈ g.rows) :
    e.1 ∈ g.members file ++ [file] ↔ e.2.liesIn path := by
  rw [List.mem_append, List.mem_singleton, h.mem_members_iff hfile he, h.eq_file_iff hfile he]
  cases hkind : e.2.kind <;> simp [Vertex.liesIn, Vertex.isSymbol, hkind, Path.same]

theorem removeFile_of_find?_eq_none {path : Path}
    (hnone : g.files.find? path.components = none) : g.removeFile path = g := by
  simp only [removeFile, hnone]

/-- What is left of an atlas when a file is taken out. -/
theorem Inv.exists_removeFile_eq (h : g.Inv) {path : Path} {file : Nat}
    (hfile : g.files.find? path.components = some file) :
    let net := g.net.eraseVertices (g.members file ++ [file])
    ∃ qualified simple,
      Lists qualified Vertex.name net.vertices.items ∧
      Lists simple Vertex.simpleName net.vertices.items ∧
      g.removeFile path = { g with
        net, qualified, simple
        files := g.files.erase path.components
        linked := g.linked.keep fun arc => (net.arc? arc).isSome
        pending := g.pending.filter fun d => !d.path.same path
        entities := g.entities.filter fun e => !e.1.same path } := by
  obtain ⟨w, hw, hwkind, -⟩ := h.files.find?_eq_some_iff.1 hfile
  -- First the symbols go, which leaves the vertex of the file in place.
  have hnamed : Named { g with files := g.files.erase path.components } :=
    ⟨h.wf, h.qualified, h.simple⟩
  have hleft := hnamed.foldl_removeSymbol (g.members file)
  obtain ⟨qualified, simple, heq⟩ := exists_foldl_removeSymbol_eq
    { g with files := g.files.erase path.components } (g.members file)
  rw [heq] at hleft
  have hsymbol : w.isSymbol = false := by simp [Vertex.isSymbol, hwkind]
  have hmember : file ∉ g.members file := fun hmem =>
    h.not_mem_homes hw hwkind hw hsymbol (mem_members.1 hmem)
  have hw' : (file, w) ∈ (g.net.eraseVertices (g.members file)).vertices.items := by
    rw [(h.wf.items_eraseVertices _).1]
    exact List.mem_filter.2 ⟨hw, by simpa using hmember⟩
  -- Then it goes itself, which is in no index by name.
  have hnet : g.net.eraseVertices (g.members file ++ [file]) =
      (g.net.eraseVertices (g.members file)).eraseVertex file :=
    List.foldl_append
  intro net
  refine ⟨qualified, simple, ?_, ?_, ?_⟩
  · rw [show net = _ from hnet, (hleft.wf.items_eraseVertex file).1]
    exact hleft.qualified.filter_of_not_isSymbol hleft.wf.vertices.nodup hw' hsymbol
  · rw [show net = _ from hnet, (hleft.wf.items_eraseVertex file).1]
    exact hleft.simple.filter_of_not_isSymbol hleft.wf.vertices.nodup hw' hsymbol
  · simp only [removeFile, hfile, heq, ← hnet, net]

/-- Of a file that the atlas does not have, it has no symbol either. -/
theorem Inv.not_liesIn (h : g.Inv) {path : Path} (hnone : g.files.find? path.components = none)
    {e : Nat × Vertex} (he : e ∈ g.rows) : e.2.liesIn path = false := by
  obtain ⟨n, v⟩ := e
  have hnot : ∀ m w, (m, w) ∈ g.rows → w.kind = .file → w.path.components ≠ path.components := by
    intro m w hmem hkind hpath
    rw [h.files.find?_eq_some_iff.2 ⟨w, hmem, hkind, hpath⟩] at hnone
    cases hnone
  rw [← Bool.not_eq_true]
  simp only [Vertex.liesIn, Bool.and_eq_true, decide_eq_true_eq, Path.same_iff]
  rintro ⟨hne, hpath⟩
  cases hkind : v.kind with
  | repository => exact hne hkind
  | file => exact hnot n v he hkind hpath
  | symbol kind =>
    obtain ⟨f, u, -, hu, hukind, hupath⟩ :=
      (h.housed _ he).of_isSymbol (Vertex.isSymbol_iff.2 ⟨kind, hkind⟩)
    exact hnot f u hu hukind (by rw [hupath, hpath])

theorem Inv.items_eraseFile (h : g.Inv) {path : Path} {file : Nat}
    (hfile : g.files.find? path.components = some file) :
    (g.net.eraseVertices (g.members file ++ [file])).vertices.items =
      g.rows.filter fun e => !e.2.liesIn path := by
  rw [(h.wf.items_eraseVertices _).1]
  refine List.filter_congr fun e he => ?_
  have := h.mem_members_append_iff hfile he
  cases hlies : e.2.liesIn path <;> simp_all

/-- A file goes with just the vertices that lie in it. -/
theorem Inv.rows_removeFile (h : g.Inv) (path : Path) :
    (g.removeFile path).rows = g.rows.filter fun e => !e.2.liesIn path := by
  cases hfile : g.files.find? path.components with
  | none =>
    rw [removeFile_of_find?_eq_none hfile, List.filter_eq_self.2 fun e he => ?_]
    rw [h.not_liesIn hfile he]
    rfl
  | some file =>
    obtain ⟨qualified, simple, -, -, heq⟩ := h.exists_removeFile_eq hfile
    rw [heq]
    exact h.items_eraseFile hfile

theorem Inv.mem_rows_removeFile (h : g.Inv) (path : Path) {e : Nat × Vertex} (he : e ∈ g.rows)
    (hkind : e.2.kind = .repository) : e ∈ (g.removeFile path).rows := by
  rw [h.rows_removeFile]
  exact List.mem_filter.2 ⟨he, by simp [Vertex.liesIn, hkind]⟩

theorem not_same_of_isSome {path other : Path} (hnone : g.files.find? path.components = none)
    (hsome : (g.files.find? other.components).isSome) : (!other.same path) = true := by
  rw [Bool.not_eq_true', ← Bool.not_eq_true, Path.same_iff]
  intro heq
  rw [heq, hnone] at hsome
  cases hsome

theorem Inv.pending_removeFile (h : g.Inv) (path : Path) :
    (g.removeFile path).pending = g.pending.filter fun d => !d.path.same path := by
  cases hfile : g.files.find? path.components with
  | none =>
    rw [removeFile_of_find?_eq_none hfile,
      List.filter_eq_self.2 fun d hd => not_same_of_isSome hfile (h.pending d hd)]
  | some file =>
    obtain ⟨qualified, simple, -, -, heq⟩ := h.exists_removeFile_eq hfile
    rw [heq]

theorem Inv.entities_removeFile (h : g.Inv) (path : Path) :
    (g.removeFile path).entities = g.entities.filter fun e => !e.1.same path := by
  cases hfile : g.files.find? path.components with
  | none =>
    rw [removeFile_of_find?_eq_none hfile,
      List.filter_eq_self.2 fun e he => not_same_of_isSome hfile (h.entities e he)]
  | some file =>
    obtain ⟨qualified, simple, -, -, heq⟩ := h.exists_removeFile_eq hfile
    rw [heq]

theorem Inv.find?_removeFile (h : g.Inv) (path : Path) :
    (g.removeFile path).files.find? path.components = none := by
  cases hfile : g.files.find? path.components with
  | none => rw [removeFile_of_find?_eq_none hfile, hfile]
  | some file =>
    obtain ⟨qualified, simple, -, -, heq⟩ := h.exists_removeFile_eq hfile
    rw [heq]
    exact Index.find?_erase_self _ _

section

variable {path : Path} {gone : List Nat}

theorem Inv.mem_eraseVertices (h : g.Inv) {n : Nat} {v : Vertex} (hmem : (n, v) ∈ g.rows)
    (hn : n ∉ gone) : (n, v) ∈ (g.net.eraseVertices gone).vertices.items := by
  rw [(h.wf.items_eraseVertices gone).1]
  exact List.mem_filter.2 ⟨hmem, by simpa using hn⟩

/-- What a vertex outside of a file lies in is outside of it as well. -/
theorem Inv.home_not_liesIn (h : g.Inv) {e : Nat × Vertex} (he : e ∈ g.rows)
    (hlies : e.2.liesIn path = false) {home : Nat} (hhome : home ∈ g.net.homes e.1) :
    ∃ w, (home, w) ∈ g.rows ∧ w.liesIn path = false := by
  have hhoused := h.housed e he
  cases hkind : e.2.kind with
  | repository =>
    simp only [Housed, hkind] at hhoused
    rw [hhoused] at hhome
    cases hhome
  | file =>
    simp only [Housed, hkind] at hhoused
    rcases hhoused with hnil | ⟨n, w, hone, hw, hwkind⟩
    · rw [hnil] at hhome
      cases hhome
    · rw [hone, List.mem_singleton] at hhome
      exact ⟨w, hhome ▸ hw, by simp [Vertex.liesIn, hwkind]⟩
  | symbol kind =>
    obtain ⟨n, w, hone, hw, hwkind, hwpath⟩ :=
      hhoused.of_isSymbol (Vertex.isSymbol_iff.2 ⟨kind, hkind⟩)
    rw [hone, List.mem_singleton] at hhome
    refine ⟨w, hhome ▸ hw, ?_⟩
    simpa [Vertex.liesIn, hkind, hwkind, hwpath] using hlies

theorem Inv.housed_eraseVertices (h : g.Inv)
    (hgone : ∀ e ∈ g.rows, e.1 ∈ gone ↔ e.2.liesIn path) {e : Nat × Vertex} (he : e ∈ g.rows)
    (hlies : e.2.liesIn path = false) :
    Housed (g.net.eraseVertices gone).vertices.items e.2 ((g.net.eraseVertices gone).homes e.1) := by
  have hstay : ∀ r ∈ g.rows, r.2.liesIn path = false → r.1 ∉ gone := by
    intro r hr hfalse hin
    rw [(hgone r hr).1 hin] at hfalse
    cases hfalse
  have hhomes : ∀ home ∈ g.net.homes e.1, home ∉ gone := by
    intro home hhome
    obtain ⟨w, hw, hfalse⟩ := h.home_not_liesIn he hlies hhome
    exact hstay (home, w) hw hfalse
  rw [h.wf.homes_eraseVertices (hstay e he hlies),
    List.filter_eq_self.2 fun home hhome => by simpa using hhomes home hhome]
  exact (h.housed e he).mono fun r hr hin => h.mem_eraseVertices hr (hhomes r.1 hin)

/-- An arc still has its number just if both its ends are kept. -/
theorem Inv.linked_eraseVertices (h : g.Inv) (gone : List Nat) :
    Joins (g.linked.keep fun arc => ((g.net.eraseVertices gone).arc? arc).isSome)
      (g.net.eraseVertices gone).links := by
  have hlinks : (g.net.eraseVertices gone).links =
      g.net.links.filter fun a => ((g.net.eraseVertices gone).arc? a.1).isSome := by
    rw [h.wf.links_eraseVertices]
    refine List.filter_congr fun a ha => ?_
    have hmem := (Net.mem_links.1 ha).1
    rw [← Bool.coe_iff_coe, decide_eq_true_eq, Net.arc?,
      (h.wf.eraseVertices gone).arcs.isSome_get?_iff, (h.wf.items_eraseVertices gone).2,
      List.mem_map]
    constructor
    · intro hends
      exact ⟨a, List.mem_filter.2 ⟨hmem, by simpa using hends⟩, rfl⟩
    · rintro ⟨b, hb, hab⟩
      obtain ⟨hbmem, hends⟩ := List.mem_filter.1 hb
      rw [List.inj_on_of_nodup_map h.wf.arcs.nodup hmem hbmem hab.symm]
      simpa using hends
  rw [hlinks]
  exact h.linked.keep

end

theorem isSome_find?_erase {ix : Index (List Component) Nat} {path other : Path}
    (h : (ix.find? other.components).isSome) (hother : (!other.same path) = true) :
    ((ix.erase path.components).find? other.components).isSome := by
  rw [Bool.not_eq_true', ← Bool.not_eq_true, Path.same_iff] at hother
  rwa [Index.find?_erase_of_ne ix hother]

theorem Inv.removeFile (h : g.Inv) (path : Path) : (g.removeFile path).Inv := by
  cases hfile : g.files.find? path.components with
  | none => rwa [removeFile_of_find?_eq_none hfile]
  | some file =>
    obtain ⟨qualified, simple, hqualified, hsimple, heq⟩ := h.exists_removeFile_eq hfile
    have hrows := h.items_eraseFile hfile
    have hgone : ∀ e ∈ g.rows, e.1 ∈ g.members file ++ [file] ↔ e.2.liesIn path := fun _ =>
      h.mem_members_append_iff hfile
    rw [heq]
    refine
      { wf := h.wf.eraseVertices _
        qualified := hqualified
        simple := hsimple
        files := ?_
        repositories := ?_
        housed := ?_
        linked := h.linked_eraseVertices _
        links := ?_
        pending := ?_
        entities := ?_ }
    · rw [rows, hrows]
      refine h.files.erase fun e _ other hother => ?_
      obtain ⟨hkind, rfl⟩ := Vertex.pathAs?_eq_some_iff.1 hother
      simp [Vertex.liesIn, hkind, Path.same]
    · rw [rows, hrows]
      refine h.repositories.filter fun e _ hsome => ?_
      obtain ⟨key, hkey⟩ := Option.isSome_iff_exists.1 hsome
      simp [Vertex.liesIn, (Vertex.pathAs?_eq_some_iff.1 hkey).1]
    · intro e he
      rw [rows, hrows, List.mem_filter, Bool.not_eq_true'] at he
      exact h.housed_eraseVertices hgone he.1 he.2
    · -- An arc that is left has both its ends.
      intro a ha
      rw [h.wf.links_eraseVertices, List.mem_filter, decide_eq_true_eq] at ha
      refine (h.links a ha.1).mono fun e he hend => h.mem_eraseVertices he ?_
      rcases hend with hend | hend
      · exact hend ▸ ha.2.1
      · exact hend ▸ ha.2.2
    · intro d hd
      obtain ⟨hmem, hd⟩ := List.mem_filter.1 hd
      exact isSome_find?_erase (h.pending d hmem) hd
    · intro e he
      obtain ⟨hmem, he⟩ := List.mem_filter.1 he
      exact isSome_find?_erase (h.entities e hmem) he

/-! ### Ingesting -/

/-- The rows of the symbols come in front of those that were there. -/
theorem exists_rows_foldl_addSymbol (path : Path) (file : Nat) (symbols : List Symbol)
    (g : Atlas) :
    ∃ new, (symbols.foldl (addSymbol path file) g).rows = new ++ g.rows ∧
      new.map Prod.snd = (symbols.map (Vertex.ofSymbol path)).reverse := by
  induction symbols generalizing g with
  | nil => exact ⟨[], rfl, rfl⟩
  | cons s symbols ih =>
    obtain ⟨new, hrows, hnew⟩ := ih (addSymbol path file g s)
    refine ⟨new ++ [(g.net.vertices.next, .ofSymbol path s)], ?_, by simp [hnew]⟩
    rw [List.foldl_cons, hrows, List.append_assoc]
    rfl

theorem Inv.foldl_addSymbol (h : g.Inv) {path : Path} {file : Nat} {v : Vertex}
    (hfile : (file, v) ∈ g.rows) (hkind : v.kind = .file) (hpath : v.path = path)
    (symbols : List Symbol) : (symbols.foldl (Atlas.addSymbol path file) g).Inv := by
  induction symbols generalizing g with
  | nil => exact h
  | cons s symbols ih =>
    exact ih (h.addSymbol hfile hkind hpath s) (List.mem_cons_of_mem _ hfile)

/-- Adding symbols changes the graph and the two indexes by name only. -/
theorem exists_foldl_addSymbol_eq (path : Path) (file : Nat) (symbols : List Symbol) (g : Atlas) :
    ∃ net qualified simple,
      symbols.foldl (addSymbol path file) g = { g with net, qualified, simple } := by
  induction symbols generalizing g with
  | nil => exact ⟨_, _, _, rfl⟩
  | cons s symbols ih => exact ih (addSymbol path file g s)

theorem pending_ingest (g : Atlas) (repository : Option Nat) (path : Path) (found : Findings)
    (entities : List Entity) :
    (g.ingest repository path found entities).2.pending =
      (g.removeFile path).pending ++ found.dependencies.map (.ofDependency path) := by
  obtain ⟨net, qualified, simple, heq⟩ := exists_foldl_addSymbol_eq path
    (g.removeFile path).net.vertices.next found.symbols ((g.removeFile path).withFile repository path)
  simp only [ingest_eq, heq]
  rfl

theorem entities_ingest (g : Atlas) (repository : Option Nat) (path : Path) (found : Findings)
    (entities : List Entity) :
    (g.ingest repository path found entities).2.entities =
      (g.removeFile path).entities ++ entities.map fun e => (path, e) := by
  obtain ⟨net, qualified, simple, heq⟩ := exists_foldl_addSymbol_eq path
    (g.removeFile path).net.vertices.next found.symbols ((g.removeFile path).withFile repository path)
  simp only [ingest_eq, heq]
  rfl

theorem Inv.ingest (h : g.Inv) {repository : Option Nat}
    (hrepository : ∀ n ∈ repository, ∃ v, (n, v) ∈ g.rows ∧ v.kind = .repository) (path : Path)
    (found : Findings) (entities : List Entity) :
    (g.ingest repository path found entities).2.Inv := by
  have hleft := h.removeFile path
  have hstill : ∀ n ∈ repository, ∃ v, (n, v) ∈ (g.removeFile path).rows ∧
      v.kind = .repository := by
    intro n hn
    obtain ⟨v, hmem, hkind⟩ := hrepository n hn
    exact ⟨v, h.mem_rows_removeFile path hmem hkind, hkind⟩
  have hfile : ((g.removeFile path).net.vertices.next, Vertex.ofFile path) ∈
      ((g.removeFile path).withFile repository path).rows := by
    rw [rows_withFile]
    exact List.mem_cons_self
  have hall := (hleft.withFile hstill (h.find?_removeFile path)).foldl_addSymbol hfile rfl rfl
    found.symbols
  -- What is still to be linked, and the entities, name the file that was put in.
  have hhere : ((found.symbols.foldl (Atlas.addSymbol path (g.removeFile path).net.vertices.next)
      ((g.removeFile path).withFile repository path)).files.find? path.components).isSome := by
    obtain ⟨net, qualified, simple, heq⟩ := exists_foldl_addSymbol_eq path
      (g.removeFile path).net.vertices.next found.symbols
      ((g.removeFile path).withFile repository path)
    rw [heq]
    simp only [Atlas.withFile, Index.find?_insert_self, Option.isSome_some]
  rw [ingest_eq]
  refine { hall with pending := ?_, entities := ?_ }
  · intro d hd
    rcases List.mem_append.1 hd with hd | hd
    · exact hall.pending d hd
    · obtain ⟨d', -, rfl⟩ := List.mem_map.1 hd
      exact hhere
  · intro e he
    rcases List.mem_append.1 he with he | he
    · exact hall.entities e he
    · obtain ⟨e', -, rfl⟩ := List.mem_map.1 he
      exact hhere

/-- Ingesting a file puts its rows in front of those that are left without it. -/
theorem Inv.exists_rows_ingest (h : g.Inv) (repository : Option Nat) (path : Path)
    (found : Findings) (entities : List Entity) :
    ∃ new, (g.ingest repository path found entities).2.rows =
        new ++ g.rows.filter (fun e => !e.2.liesIn path) ∧
      new.map Prod.snd = (.ofFile path :: found.symbols.map (.ofSymbol path)).reverse := by
  obtain ⟨new, hrows, hnew⟩ := exists_rows_foldl_addSymbol path
    (g.removeFile path).net.vertices.next found.symbols ((g.removeFile path).withFile repository path)
  refine ⟨new ++ [((g.removeFile path).net.vertices.next, .ofFile path)], ?_, ?_⟩
  · rw [rows_withFile, h.rows_removeFile] at hrows
    rw [ingest_eq, List.append_assoc, List.singleton_append]
    exact hrows
  · rw [List.map_append, hnew, List.reverse_cons]
    rfl

end SymbolAtlas.Atlas
