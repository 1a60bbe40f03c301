import Mathlib.Data.List.DropRight
import Mathlib.Tactic
import SymbolAtlas.Proofs.Graph.Linking

/-!
# Names resolve as by looking at every symbol

Linking finds the ends of a dependency by way of the indexes. Here the same ends are described
without any index, by a scan of all symbols, the oldest first, which is also the order of the lists
in the indexes (`Named.listed_qualified`, `Named.listed_simple`).

* `scanSource?` — the symbol with the name, or else the vertex of the file;
* `scanTarget?` — the symbol with the name; or else, for a name of several segments, one whose name
  ends in it; or else one with the same last segment;
* `Indexed.ends?_eq_scanEnds?` — both ways give the same ends.

The index by last segment is enough for the second way to fit a target: what ends in a dotted name
has the last segment of that name (`Dotted.lastSegment_of_endsWith`).
-/

namespace SymbolAtlas

/-! ### Last segments -/

namespace Dotted

theorem lastSegmentChars_eq_self_iff {cs : List Char} : lastSegmentChars cs = cs ↔ '.' ∉ cs := by
  have h : lastSegmentChars cs = cs ↔ ∀ c ∈ cs, (c != '.') = true := List.rtakeWhile_eq_self_iff
  rw [h]
  constructor
  · intro hall hdot
    simpa using hall '.' hdot
  · intro hdot c hc
    rw [bne_iff_ne]
    rintro rfl
    exact hdot hc

/-- A name is its own last segment just if it has no dot. -/
theorem lastSegment_eq_self_iff {name : String} : lastSegment name = name ↔ '.' ∉ name.toList := by
  rw [← lastSegmentChars_eq_self_iff, lastSegment, ← String.toList_inj, String.toList_ofList]

/-- What stands before a dot does not matter. -/
theorem lastSegmentChars_append (front : List Char) {cs : List Char} (h : '.' ∈ cs) :
    lastSegmentChars (front ++ cs) = lastSegmentChars cs := by
  have hstop : (cs.reverse.takeWhile (· != '.')).length ≠ cs.reverse.length := by
    intro heq
    have hself : lastSegmentChars cs = cs := by
      rw [lastSegmentChars, List.reverse_eq_iff]
      exact (List.takeWhile_prefix _).eq_of_length heq
    exact lastSegmentChars_eq_self_iff.1 hself h
  rw [lastSegmentChars, List.reverse_append, List.takeWhile_append, if_neg hstop, lastSegmentChars]

theorem lastSegment_of_endsWith {name target : String} (hdot : '.' ∈ target.toList)
    (h : Str.endsWith name ("." ++ target)) : lastSegment name = lastSegment target := by
  rw [Str.endsWith, List.isSuffixOf_iff_suffix] at h
  obtain ⟨front, hfront⟩ := h
  rw [String.toList_append, ← List.append_assoc] at hfront
  rw [lastSegment, lastSegment, ← hfront, lastSegmentChars_append _ hdot]

end Dotted

namespace Atlas

/-! ### Looking at every symbol -/

/-- The symbols with their numbers, the oldest first. -/
def symbolRows (g : Atlas) : List (Nat × Vertex) := (g.rows.filter fun e => e.2.isSymbol).reverse

/-- The first symbol that fits and lies in the file, or else the first that fits. -/
def scan? (g : Atlas) (path : Path) (fits : Vertex → Bool) : Option Nat :=
  let found := g.symbolRows.filter fun e => fits e.2
  ((found.find? fun e => e.2.path.same path).or found.head?).map Prod.fst

/-- The vertex of the file. -/
def scanFile? (g : Atlas) (path : Path) : Option Nat :=
  (g.rows.find? fun e => e.2.kind = .file ∧ e.2.path.same path).map Prod.fst

/-- Where a dependency comes from. -/
def scanSource? (g : Atlas) (d : Pending) : Option Nat :=
  (g.scan? d.path fun v => v.name = d.fromSymbol).or (g.scanFile? d.path)

/-- Where a dependency leads to. -/
def scanTarget? (g : Atlas) (d : Pending) : Option Nat :=
  (g.scan? d.path fun v => v.name = d.toSymbol).or
    ((g.scan? d.path fun v =>
        d.toSymbol.toList.contains '.' && Str.endsWith v.name ("." ++ d.toSymbol)).or
      (g.scan? d.path fun v => Dotted.lastSegment v.name = Dotted.lastSegment d.toSymbol))

/-- The two ends of a dependency, when it has both and they differ. -/
def scanEnds? (g : Atlas) (d : Pending) : Option (Nat × Nat) :=
  (g.scanSource? d).bind fun source => (g.scanTarget? d).bind fun target =>
    if source = target then none else some (source, target)

/-! ### The lists in the indexes -/

variable {g : Atlas}

theorem symbolsNamed_rows (g : Atlas) (name : Vertex → String) (s : String) :
    symbolsNamed g.rows name s = g.symbolRows.filter fun e => name e.2 = s := by
  rw [symbolsNamed, symbolRows, List.filter_reverse, List.filter_filter]
  congr 1
  refine List.filter_congr fun e _ => ?_
  rw [Bool.decide_and, Bool.decide_coe, Bool.and_comm]

/-- A list in the index by name has the order in which all symbols are looked at. -/
theorem Named.listed_qualified (h : g.Named) (name : String) :
    g.qualified.list name = (g.symbolRows.filter fun e => e.2.name = name).map Prod.fst := by
  rw [h.qualified.list_eq, symbolsNamed_rows]

theorem Named.listed_simple (h : g.Named) (segment : String) :
    g.simple.list segment =
      (g.symbolRows.filter fun e => Dotted.lastSegment e.2.name = segment).map Prod.fst := by
  rw [h.simple.list_eq, symbolsNamed_rows]
  rfl

theorem mem_rows_of_mem_symbolRows {e : Nat × Vertex} (he : e ∈ g.symbolRows) : e ∈ g.rows :=
  List.mem_of_mem_filter (List.mem_reverse.1 he)

theorem Named.vertex?_of_mem (h : g.Named) {e : Nat × Vertex} (he : e ∈ g.symbolRows) :
    g.net.vertex? e.1 = some e.2 :=
  h.wf.vertices.get?_eq_some_iff.2 (mem_rows_of_mem_symbolRows he)

/-- The candidates for a name are looked through like the symbols that fit. -/
theorem Named.preferFile_eq (h : g.Named) (path : Path) (fits : Vertex → Bool) :
    g.preferFile path ((g.symbolRows.filter fun e => fits e.2).map Prod.fst) =
      g.scan? path fits := by
  have hsame : ∀ e ∈ g.symbolRows.filter (fun e => fits e.2),
      ((g.net.vertex? e.1).any fun v => v.path.same path) = e.2.path.same path := by
    intro e he
    rw [h.vertex?_of_mem (List.mem_of_mem_filter he), Option.any_some]
  rw [preferFile, scan?, List.find?_map, List.head?_map, Option.map_or]
  congr 2
  exact List.find?_congr hsame

theorem Named.named?_eq (h : g.Named) (name : String) (path : Path) :
    g.named? name path = g.scan? path fun v => v.name = name := by
  rw [named?, h.listed_qualified]
  exact h.preferFile_eq path fun v => v.name = name

/-- All symbols whose name ends in a dotted name are listed under its last segment. -/
theorem Named.endingIn_eq (h : g.Named) (target : String) :
    g.endingIn target = (g.symbolRows.filter fun e =>
      target.toList.contains '.' && Str.endsWith e.2.name ("." ++ target)).map Prod.fst := by
  by_cases hdot : '.' ∈ target.toList
  · have hne : Dotted.lastSegment target ≠ target := fun heq =>
      Dotted.lastSegment_eq_self_iff.1 heq hdot
    simp only [endingIn, if_neg hne]
    rw [h.listed_simple, List.filter_map, List.filter_filter]
    congr 1
    refine List.filter_congr fun e he => ?_
    rw [Function.comp, h.vertex?_of_mem he, Option.any_some, List.contains_iff_mem.2 hdot,
      Bool.true_and]
    cases hends : Str.endsWith e.2.name ("." ++ target) with
    | false => rfl
    | true => simpa using Dotted.lastSegment_of_endsWith hdot hends
  · have heq : Dotted.lastSegment target = target := Dotted.lastSegment_eq_self_iff.2 hdot
    simp only [endingIn, if_pos heq]
    rw [eq_comm, List.map_eq_nil_iff, List.filter_eq_nil_iff]
    simp [hdot]

theorem Indexed.find?_files_eq (h : g.Indexed) (path : Path) :
    g.files.find? path.components = g.scanFile? path := by
  cases hfind : g.rows.find? fun e => e.2.kind = .file ∧ e.2.path.same path with
  | none =>
    rw [scanFile?, hfind]
    refine h.files.find?_eq_none fun e he hkey => ?_
    obtain ⟨hkind, hpath⟩ := Vertex.pathAs?_eq_some_iff.1 hkey
    simpa [hkind, Path.same_iff, hpath] using List.find?_eq_none.1 hfind e he
  | some e =>
    rw [scanFile?, hfind]
    have he : e.2.kind = .file ∧ e.2.path.same path := by simpa using List.find?_some hfind
    exact h.files.find?_eq_some_iff.2
      ⟨e.2, List.mem_of_find?_eq_some hfind, he.1, Path.same_iff.1 he.2⟩

theorem scanEnds?_eq_some_iff {d : Pending} {source target : Nat} :
    g.scanEnds? d = some (source, target) ↔
      g.scanSource? d = some source ∧ g.scanTarget? d = some target ∧ source ≠ target := by
  simp only [scanEnds?, Option.bind_eq_some_iff]
  constructor
  · rintro ⟨s, hs, t, ht, hends⟩
    split at hends
    · cases hends
    · cases hends
      exact ⟨hs, ht, by assumption⟩
  · rintro ⟨hs, ht, hne⟩
    exact ⟨source, hs, target, ht, if_neg hne⟩

/-- The indexes give a dependency the ends that a scan of all vertices gives it. -/
theorem Indexed.ends?_eq_scanEnds? (h : g.Indexed) (d : Pending) : g.ends? d = g.scanEnds? d := by
  have hsource : g.source? d.fromSymbol d.path = g.scanSource? d := by
    rw [source?, h.named?_eq, h.find?_files_eq]
    rfl
  have htarget : g.target? d.toSymbol d.path = g.scanTarget? d := by
    rw [target?, h.named?_eq, h.endingIn_eq, h.listed_simple]
    rw [h.preferFile_eq d.path fun v =>
      d.toSymbol.toList.contains '.' && Str.endsWith v.name ("." ++ d.toSymbol)]
    rw [h.preferFile_eq d.path fun v =>
      Dotted.lastSegment v.name = Dotted.lastSegment d.toSymbol]
    rfl
  refine Option.ext fun ends => ?_
  rw [ends?_eq_some_iff, scanEnds?_eq_some_iff, hsource, htarget]

end Atlas

end SymbolAtlas
