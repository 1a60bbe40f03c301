import Mathlib.Tactic
import SymbolAtlas.Proofs.Graph.Reachable

/-!
# What goes with a file, and what stays

A file that the atlas does not have can be removed without any change. Otherwise its vertex goes
with the symbols that it contains, told by the arcs of containment (`isWithin`), and with every arc
at one of them; what was declared in the file and found in it goes too. All the rest stays as it is,
under the numbers and in the order that it had (`IsRemovalOf`).

* `isWithin_iff` — what is within a file are the vertices that removing it takes out.
* `Inv.isRemovalOf_removeFile` — what is left, for each part of the atlas.
* `removeFile_of_reachable` — removing a file from a reachable atlas.
-/

namespace SymbolAtlas

/-- Where symbols go by their numbers, the lists in an index by name lose just these. -/
theorem Lists.list_of_filter {ix left : Index String (List Nat)} {name : Vertex → String}
    {vs : List (Nat × Vertex)} (h : Lists ix name vs) (keep : Nat → Bool)
    (hleft : Lists left name (vs.filter fun e => keep e.1)) (s : String) :
    left.list s = (ix.list s).filter keep := by
  rw [h.list_eq, hleft.list_eq, symbolsNamed, symbolsNamed, List.filter_map, List.filter_reverse,
    List.filter_filter, List.filter_filter]
  congr 2
  exact List.filter_congr fun e _ => Bool.and_comm _ _

namespace Atlas

/-- The vertex is the file, or the file contains it. -/
def isWithin (g : Atlas) (file n : Nat) : Bool :=
  n == file || g.net.arcs.items.any fun a =>
    a.2.edge.kind = .contains ∧ a.2.source = file ∧ a.2.target = n

/-- What is left of an atlas, in each of its parts, when a file is taken out. -/
structure IsRemovalOf (g : Atlas) (path : Path) (file : Nat) (left : Atlas) : Prop where
  /-- A file contains symbols only. -/
  symbols : ∀ n, g.isWithin file n → n ≠ file → ∃ v, g.net.vertex? n = some v ∧ v.isSymbol
  vertex : ∀ n, left.net.vertex? n = if g.isWithin file n then none else g.net.vertex? n
  arc : ∀ n, left.net.arc? n = (g.net.arc? n).filter fun a =>
    !g.isWithin file a.source && !g.isWithin file a.target
  /-- The arcs that are left are listed in the order they had. -/
  arc_order : left.net.arcs.items = g.net.arcs.items.filter fun a =>
    !g.isWithin file a.2.source && !g.isWithin file a.2.target
  files : ∀ key, left.files.find? key = if key = path.components then none else g.files.find? key
  repositories : left.repositories = g.repositories
  qualified : ∀ name, left.qualified.list name =
    (g.qualified.list name).filter fun n => !g.isWithin file n
  simple : ∀ segment, left.simple.list segment =
    (g.simple.list segment).filter fun n => !g.isWithin file n
  /-- No list is left without a symbol. -/
  full : left.qualified.Full ∧ left.simple.Full
  linked : ∀ source target kind, left.linked.find? (source, target, kind) =
    if g.isWithin file source || g.isWithin file target then none
    else g.linked.find? (source, target, kind)
  pending : left.pending = g.pending.filter fun d => !d.path.same path
  entities : left.entities = g.entities.filter fun e => !e.1.same path
  unresolved : left.unresolved = g.unresolved

variable {g : Atlas} {path : Path} {file : Nat}

/-! ### The vertices of a file -/

theorem isWithin_iff {n : Nat} : g.isWithin file n ↔ n ∈ g.members file ++ [file] := by
  rw [List.mem_append, List.mem_singleton, mem_members, Net.mem_homes, isWithin, Bool.or_eq_true,
    beq_iff_eq, List.any_eq_true, or_comm]
  refine or_congr_left (exists_congr fun a => and_congr_right fun _ => ?_)
  rw [decide_eq_true_eq]
  tauto

theorem not_isWithin_eq {n : Nat} :
    (!g.isWithin file n) = decide (n ∉ g.members file ++ [file]) := by
  rw [← Bool.coe_iff_coe, Bool.not_eq_true', ← Bool.not_eq_true, isWithin_iff, decide_eq_true_eq]

/-- A file contains symbols only. -/
theorem Inv.isSymbol_of_isWithin (h : g.Inv) {w : Vertex} (hw : (file, w) ∈ g.rows)
    (hkind : w.kind = .file) {n : Nat} (hn : g.isWithin file n) (hne : n ≠ file) :
    ∃ v, g.net.vertex? n = some v ∧ v.isSymbol := by
  have hmember : n ∈ g.members file := by
    have hmem := isWithin_iff.1 hn
    rw [List.mem_append, List.mem_singleton] at hmem
    exact hmem.resolve_right hne
  have hhome := mem_members.1 hmember
  obtain ⟨a, ha, -, rfl, -⟩ := Net.mem_homes.1 hhome
  obtain ⟨v, hv⟩ := (h.wf.ends a ha).2.exists_mem
  refine ⟨v, h.vertex?_eq_some_iff.2 hv, ?_⟩
  by_contra hsymbol
  exact h.not_mem_homes hw hkind hv (Bool.eq_false_iff.2 hsymbol) hhome

/-! ### What is left -/

/-- The vertices within a file go, and with them the arcs at one of them. -/
theorem Inv.items_eraseWithin (h : g.Inv) (file : Nat) :
    (g.net.eraseVertices (g.members file ++ [file])).vertices.items =
        (g.rows.filter fun e => !g.isWithin file e.1) ∧
      (g.net.eraseVertices (g.members file ++ [file])).arcs.items =
        g.net.arcs.items.filter fun a =>
          !g.isWithin file a.2.source && !g.isWithin file a.2.target := by
  obtain ⟨hvertices, harcs⟩ := h.wf.items_eraseVertices (g.members file ++ [file])
  rw [hvertices, harcs]
  simp only [not_isWithin_eq, Bool.decide_and, and_self]

/-- The index of dependencies loses just the keys with an end that is gone. -/
theorem Inv.find?_linked_keep (h : g.Inv) {net : Net} {gone : Nat → Bool}
    (harc : ∀ n, net.arc? n =
      (g.net.arc? n).filter fun a => !gone a.source && !gone a.target)
    (source target : Nat) (kind : DependencyKind) :
    (g.linked.keep fun n => (net.arc? n).isSome).find? (source, target, kind) =
      if gone source || gone target then none else g.linked.find? (source, target, kind) := by
  rw [h.linked.keyed.find?_keep_eq]
  cases hfind : g.linked.find? (source, target, kind) with
  | none => simp
  | some n =>
    obtain ⟨a, ha, hkey⟩ := (h.linked.find?_iff _ _).1 hfind
    obtain ⟨rfl, rfl, -⟩ := Arc.key?_eq_some_iff.1 hkey
    have hn : g.net.arc? n = some a := h.arc?_eq_some_iff.2 (Net.mem_links.1 ha).1
    cases hsource : gone a.source <;> cases htarget : gone a.target <;>
      simp [harc, hn, hsource, htarget]

theorem Inv.isRemovalOf_removeFile (h : g.Inv) {w : Vertex} (hw : (file, w) ∈ g.rows)
    (hkind : w.kind = .file) (hpath : w.path.same path) :
    g.IsRemovalOf path file (g.removeFile path) := by
  have hfile : g.files.find? path.components = some file :=
    h.files.find?_eq_some_iff.2 ⟨w, hw, hkind, Path.same_iff.1 hpath⟩
  obtain ⟨qualified, simple, hqualified, hsimple, heq⟩ := h.exists_removeFile_eq hfile
  obtain ⟨hvertices, harcs⟩ := h.items_eraseWithin file
  have harc := h.wf.arcs.get?_of_items_eq
    (fun a => !g.isWithin file a.source && !g.isWithin file a.target) harcs
  rw [hvertices] at hqualified hsimple
  rw [heq]
  exact
    { symbols := fun _ hn hne => h.isSymbol_of_isWithin hw hkind hn hne
      vertex := Pool.get?_of_items_eq hvertices
      arc := harc
      arc_order := harcs
      files := fun key => Index.find?_erase g.files path.components key
      repositories := rfl
      qualified := h.qualified.list_of_filter (fun n => !g.isWithin file n) hqualified
      simple := h.simple.list_of_filter (fun n => !g.isWithin file n) hsimple
      full := ⟨hqualified.full, hsimple.full⟩
      linked := h.find?_linked_keep harc
      pending := rfl
      entities := rfl
      unresolved := rfl }

/-- **Removing a file takes out the file, what it contains, the arcs at these and what was recorded
for its path, and leaves the rest as it is.** A file that is not there leaves all as it is. -/
theorem removeFile_of_reachable {issued : List Nat} (h : Reachable issued g) (path : Path) :
    ((∀ n v, g.net.vertex? n = some v → v.kind = .file → ¬ v.path.same path) →
      g.removeFile path = g) ∧
    ∀ file v, g.net.vertex? file = some v → v.kind = .file → v.path.same path →
      g.IsRemovalOf path file (g.removeFile path) := by
  refine ⟨fun hnone => ?_, fun file v hv hkind hpath => ?_⟩
  · apply removeFile_of_find?_eq_none
    refine h.inv.files.find?_eq_none fun e he hkey => ?_
    obtain ⟨hkind, hpath⟩ := Vertex.pathAs?_eq_some_iff.1 hkey
    exact hnone e.1 e.2 (h.inv.vertex?_eq_some_iff.2 he) hkind (Path.same_iff.2 hpath)
  · exact h.inv.isRemovalOf_removeFile (h.inv.vertex?_eq_some_iff.1 hv) hkind hpath

/-- Two files of a repository call each other, and one is removed under another spelling of its
path. Of the vertices 0 to 4 the repository, the other file and its symbol are left. -/
theorem removeFile_of_reachable_otherSpelling :
    let found (name other : String) : Findings :=
      { symbols :=
          [{ name := "Run", qualifiedName := name ++ ".Run", kind := .method, startLine := 1
             endLine := 9, isExported := true, visibility := .everyone, signature := none }]
        dependencies :=
          [{ fromSymbol := name ++ ".Run", toSymbol := other ++ ".Run", kind := .calls, line := 3
             confidence := .one }] }
    let root := (({} : Atlas).addRepository ⟨"/r"⟩).2
    let first := (root.ingest (some 0) ⟨"/r/A.cs"⟩ (found "A" "B") []).2
    let g := (first.ingest (some 0) ⟨"/r/B.cs"⟩ (found "B" "A") []).2.link
    let left := g.removeFile ⟨"/r//A.cs"⟩
    Reachable [0] g ∧ g.IsRemovalOf ⟨"/r//A.cs"⟩ 1 left ∧
      left.net.vertices.items.map Prod.fst = [4, 3, 0] ∧ left.net.links = [] ∧
      left.pending.length = 1 ∧ left.removeFile ⟨"/r/A.cs"⟩ = left := by
  intro found root first g left
  have hissued : ∀ n ∈ some 0, n ∈ [0] := by simp
  have hg : Reachable [0] g :=
    .link (.ingest (some 0) _ _ [] (.ingest (some 0) _ _ [] (.addRepository ⟨"/r"⟩ .empty) hissued)
      hissued)
  have hleft : Reachable [0] left := .removeFile _ hg
  have hnone : ∀ e ∈ left.rows, e.2.kind = .file → ¬ e.2.path.same ⟨"/r/A.cs"⟩ := by decide +kernel
  refine ⟨hg, (removeFile_of_reachable hg _).2 1 (.ofFile ⟨"/r/A.cs"⟩) (by decide +kernel)
    (by decide +kernel) (by decide +kernel), by decide +kernel, by decide +kernel,
    by decide +kernel, (removeFile_of_reachable hleft _).1 fun n v hn => ?_⟩
  exact hnone (n, v) (hleft.inv.vertex?_eq_some_iff.1 hn)

end Atlas

end SymbolAtlas
