import Mathlib.Tactic
import SymbolAtlas.Proofs.Chunk.Tiling
import SymbolAtlas.Proofs.Parse.Containers
import SymbolAtlas.Proofs.Record.Grouping

/-!
# Overlaps neither lose nor repeat a dependency

Chunks overlap, so a call may be seen by two of them. The findings of a file nevertheless hold every
dependency once (`Findings.ofFile_dependencies`): what they say about a line is what the one chunk
says whose core holds the line.

* The cores of the chunks of a file divide up its lines (`Chunk.exists_inCore_split`,
  `Chunk.eq_of_inCore`).
* Of a chunk whose dependencies lie on its own lines, those in its core are kept, also where the
  chunk has no overlap and nothing is looked at (`Parse.keptOf_eq`).
* So dependencies of different chunks are on different lines and never meet in the merge, which
  leaves them in the order of the chunks (`Parse.pairwise_disjoint_keptOf`, `Parse.seenOnce_merge`).
-/

namespace SymbolAtlas

/-! ### The cores of the chunks -/

namespace Division.Tiles

variable {overlap total : Nat} {cuts : List Nat} {last : Option Nat} {core : Nat}
  {ds : List Division}

theorem core_le (h : Tiles overlap total cuts last core ds) {d : Division} (hd : d ∈ ds) :
    core ≤ d.core := by
  induction h with
  | done => cases hd
  | chunk head rest ih =>
    rcases List.mem_cons.1 hd with rfl | hd
    · exact head.core_eq.ge
    · exact head.lt_stop.le.trans (ih hd)

/-- A core ends before all later ones begin. -/
theorem pairwise_stop_le (h : Tiles overlap total cuts last core ds) :
    ds.Pairwise fun a b => a.stop ≤ b.core := by
  induction h with
  | done => exact .nil
  | chunk head rest ih => exact .cons (fun _ hb => rest.core_le hb) ih

/-- Every line lies in a core. -/
theorem exists_core (h : Tiles overlap total cuts last core ds) {line : Nat} (hcore : core ≤ line)
    (htotal : line < total) : ∃ d ∈ ds, d.core ≤ line ∧ line < d.stop := by
  induction h with
  | done => omega
  | @chunk last core d ds head rest ih =>
    by_cases hline : line < d.stop
    · exact ⟨d, List.mem_cons_self, head.core_eq.trans_le hcore, hline⟩
    · obtain ⟨e, he, hcore⟩ := ih (Nat.le_of_not_lt hline)
      exact ⟨e, List.mem_cons_of_mem _ he, hcore⟩

end Division.Tiles

namespace Chunk

/-- The core of the chunk holds the line. -/
def inCore (c : Chunk) (line : Nat) : Bool := c.coreStartLine ≤ line && line ≤ c.endLine

theorem inCore_iff {c : Chunk} {line : Nat} :
    c.inCore line = true ↔ c.coreStartLine ≤ line ∧ line ≤ c.endLine := by
  rw [inCore, Bool.and_eq_true, decide_eq_true_eq, decide_eq_true_eq]

/-- The core of the first chunk ends before that of the second begins. -/
def CoreBefore (a b : Chunk) : Prop := a.endLine < b.coreStartLine

theorem CoreBefore.not_inCore {a b : Chunk} (h : a.CoreBefore b) {line : Nat}
    (ha : a.inCore line = true) : ¬ b.inCore line = true := by
  have hlast := (inCore_iff.1 ha).2
  intro hb
  have hfirst := (inCore_iff.1 hb).1
  exact absurd (hlast.trans_lt h) (Nat.not_lt.2 hfirst)

section

variable (settings : Settings.Chunking) (source : Bytes) (boundaries : List Nat)
  (outline : Outline) (mask : Mask)

theorem pairwise_coreBefore_split :
    (split settings source boundaries outline mask).Pairwise CoreBefore := by
  have h := (tiles_divisions settings source boundaries).pairwise_stop_le
  rw [← List.zipIdx_map_fst 0 (divisions settings source boundaries), List.pairwise_map] at h
  rw [split_eq, List.pairwise_map]
  exact h.imp fun hab => Nat.lt_succ_of_le hab

theorem exists_inCore_split {line : Nat} (hfirst : 1 ≤ line) (hlast : line ≤ source.lines.length) :
    ∃ c ∈ split settings source boundaries outline mask, c.inCore line = true := by
  obtain ⟨d, hd, hcore, hstop⟩ := (tiles_divisions settings source boundaries).exists_core
    (Nat.zero_le (line - 1)) (by omega)
  obtain ⟨i, hi⟩ := List.mem_iff_getElem?.1 hd
  rw [split_eq]
  refine ⟨_, List.mem_map_of_mem (List.mk_mem_zipIdx_iff_getElem?.2 hi), inCore_iff.2 ?_⟩
  simp only [ofDivision]
  omega

end

/-- Of chunks whose cores follow each other no two have a line of their cores in common. -/
theorem eq_of_inCore {chunks : List Chunk} (h : chunks.Pairwise CoreBefore) {a b : Chunk}
    (ha : a ∈ chunks) (hb : b ∈ chunks) {line : Nat} (hla : a.inCore line = true)
    (hlb : b.inCore line = true) : a = b := by
  induction chunks with
  | nil => cases ha
  | cons c chunks ih =>
    obtain ⟨hc, h⟩ := List.pairwise_cons.1 h
    rcases List.mem_cons.1 ha with rfl | hac <;> rcases List.mem_cons.1 hb with rfl | hbc
    · rfl
    · exact absurd hlb ((hc b hbc).not_inCore hla)
    · exact absurd hla ((hc a hac).not_inCore hlb)
    · exact ih h hac hbc

end Chunk

namespace Parse

/-! ### The dependencies of one chunk -/

section

variable (settings : Settings) (path : Path) (forest : Forest) (c : Chunk)

/-- The dependencies that a chunk yields, on the lines of the file. -/
def seenIn : List Dependency :=
  ((ofParsed path c.wrapped.text (options settings c.wrapped.preludeSize true)
    (forest.ofChunk c.index)).shift c.wrapped.lineOffset).dependencies

/-- The dependencies that are kept of a chunk. -/
def keptOf : List Dependency := (ofChunk settings path c (forest.ofChunk c.index)).dependencies

/-- All dependencies that a chunk sees are on lines of the chunk. -/
def SeesOwnLines : Prop :=
  ∀ d ∈ seenIn settings path forest c, c.startLine ≤ d.line ∧ d.line ≤ c.endLine

/-- Chunks are read without a look at errors in their trees. -/
theorem hasErrors_ofTree (text : Bytes) (preludeSize : Nat) (tree : Node) :
    (Findings.ofTree text (options settings preludeSize true) tree).hasErrors = false := rfl

theorem keptOf_eq_dropEchoes {tree : Node} (htree : forest.ofChunk c.index = .tree tree) :
    keptOf settings path forest c =
      (dropEchoes c ((Findings.ofTree c.wrapped.text (options settings c.wrapped.preludeSize true)
        tree).shift c.wrapped.lineOffset)).dependencies := by
  rw [keptOf, htree, ofChunk, ofParsed, place, hasErrors_ofTree]
  rfl

variable {settings path forest c}

theorem keptOf_eq (h : SeesOwnLines settings path forest c) :
    keptOf settings path forest c =
      (seenIn settings path forest c).filter fun d => c.inCore d.line := by
  cases htree : forest.ofChunk c.index with
  -- A chunk that fails has seen nothing, and nothing is kept of it.
  | noParser reason => rw [keptOf, seenIn, htree]; rfl
  | noTree => rw [keptOf, seenIn, htree]; rfl
  | tree tree =>
    unfold SeesOwnLines at h
    rw [seenIn, htree, ofParsed] at h ⊢
    rw [keptOf_eq_dropEchoes settings path forest c htree, dropEchoes]
    split
    · next hcore =>
      -- Without an overlap nothing is dropped, and the core holds all lines of the chunk.
      refine (List.filter_eq_self.2 fun d hd => ?_).symm
      obtain ⟨hfirst, hlast⟩ := h d hd
      exact Chunk.inCore_iff.2 ⟨hcore.trans hfirst, hlast⟩
    · refine List.filter_congr fun d hd => ?_
      have hlast := (h d hd).2
      rw [Bool.eq_iff_iff, Chunk.inCore_iff, Chunk.inOverlap]
      simp [hlast]

theorem inCore_of_mem_keptOf (h : SeesOwnLines settings path forest c) {d : Dependency}
    (hd : d ∈ keptOf settings path forest c) : c.inCore d.line = true := by
  rw [keptOf_eq h] at hd
  exact (List.mem_filter.1 hd).2

end

/-! ### The dependencies of all chunks -/

section

variable {settings : Settings} {path : Path} {forest : Forest} {chunks : List Chunk}

/-- Dependencies kept of different chunks never have the same key. -/
theorem pairwise_disjoint_keptOf (hcores : chunks.Pairwise Chunk.CoreBefore)
    (hlines : ∀ c ∈ chunks, SeesOwnLines settings path forest c) :
    chunks.Pairwise fun a b => ((keptOf settings path forest a).map Dependency.key).Disjoint
      ((keptOf settings path forest b).map Dependency.key) := by
  refine hcores.imp_of_mem fun {a b} ha hb hab key hka hkb => ?_
  obtain ⟨d, hd, rfl⟩ := List.mem_map.1 hka
  obtain ⟨e, he, hkey⟩ := List.mem_map.1 hkb
  have hline : e.line = d.line := congrArg (fun k => k.2.2.2) hkey
  refine hab.not_inCore (inCore_of_mem_keptOf (hlines a ha) hd) ?_
  rw [← hline]
  exact inCore_of_mem_keptOf (hlines b hb) he

/-- Lines of one core are spoken of by the chunk of that core only. -/
theorem filter_flatMap_keptOf (hcores : chunks.Pairwise Chunk.CoreBefore)
    (hlines : ∀ c ∈ chunks, SeesOwnLines settings path forest c) {c : Chunk} (hc : c ∈ chunks)
    {p : Nat → Bool} (hp : ∀ line, p line = true → c.inCore line = true) :
    (chunks.flatMap (keptOf settings path forest)).filter (fun d => p d.line) =
      (seenIn settings path forest c).filter fun d => p d.line := by
  induction chunks with
  | nil => cases hc
  | cons b chunks ih =>
    obtain ⟨hb, hcores⟩ := List.pairwise_cons.1 hcores
    have hrest : ∀ c ∈ chunks, SeesOwnLines settings path forest c :=
      fun c hc => hlines c (List.mem_cons_of_mem _ hc)
    rw [List.flatMap_cons, List.filter_append]
    rcases List.mem_cons.1 hc with rfl | hc
    · have hnone :
          (chunks.flatMap (keptOf settings path forest)).filter (fun d => p d.line) = [] := by
        refine List.filter_eq_nil_iff.2 fun d hd hpd => ?_
        obtain ⟨e, he, hd⟩ := List.mem_flatMap.1 hd
        exact (hb e he).not_inCore (hp _ hpd) (inCore_of_mem_keptOf (hrest e he) hd)
      rw [hnone, List.append_nil, keptOf_eq (hlines c List.mem_cons_self), List.filter_filter]
      refine List.filter_congr fun d _ => ?_
      cases hpd : p d.line with
      | false => rfl
      | true => rw [hp _ hpd, Bool.and_self]
    · have hnone : (keptOf settings path forest b).filter (fun d => p d.line) = [] := by
        refine List.filter_eq_nil_iff.2 fun d hd hpd => ?_
        exact (hb c hc).not_inCore (inCore_of_mem_keptOf (hlines b List.mem_cons_self) hd)
          (hp _ hpd)
      rw [hnone, List.nil_append, ih hcores hrest hc]

/-- The tree of the whole file adds no dependency. -/
theorem dependencies_chunked (source : Bytes) (tree : Option Node) (outline : Outline) :
    (chunked settings path source tree outline forest chunks).dependencies =
      Keyed.merge Dependency.key Dependency.surer
        (chunks.flatMap (keptOf settings path forest)) := by
  have hsyntax : (tree.toList.map (syntaxPart source)).flatMap (·.dependencies) = [] := by
    cases tree <;> rfl
  refine (Findings.dependencies_merge _).trans ?_
  rw [List.flatMap_append, hsyntax, List.append_nil, List.flatMap_map]
  rfl

end

/-- The dependencies of a file are those that its chunks see in their cores: line by line, without
duplicates and in the order of the chunks. -/
structure SeenOnce (settings : Settings) (path : Path) (forest : Forest) (chunks : List Chunk)
    (lines : Nat) (dependencies : List Dependency) : Prop where
  /-- Each line lies in the core of one chunk. -/
  core : ∀ line, 1 ≤ line → line ≤ lines → ∃! c, c ∈ chunks ∧ c.inCore line = true
  /-- On each line of its core a chunk has the say. -/
  line : ∀ c ∈ chunks, ∀ line, c.inCore line = true → Dependency.Deduplicates
    ((seenIn settings path forest c).filter (·.line == line)) (dependencies.filter (·.line == line))
  /-- There is nothing outside the cores, and what is inside follows chunk by chunk. -/
  order : dependencies = chunks.flatMap fun c => dependencies.filter fun d => c.inCore d.line
  /-- What is kept of different chunks has different keys. -/
  apart : chunks.Pairwise fun a b =>
    ∀ d ∈ keptOf settings path forest a, ∀ e ∈ keptOf settings path forest b, d.key ≠ e.key

theorem seenOnce_merge {settings : Settings} {path : Path} {forest : Forest} {chunks : List Chunk}
    {lines : Nat}
    (hcores : chunks.Pairwise Chunk.CoreBefore)
    (hall : ∀ line, 1 ≤ line → line ≤ lines → ∃ c ∈ chunks, c.inCore line = true)
    (hlines : ∀ c ∈ chunks, SeesOwnLines settings path forest c) :
    SeenOnce settings path forest chunks lines
      (Keyed.merge Dependency.key Dependency.surer
        (chunks.flatMap (keptOf settings path forest))) := by
  have hdisjoint := pairwise_disjoint_keptOf hcores hlines
  have hselect (p : Nat → Bool) := Keyed.filter_merge Dependency.keepsKey_surer
    (p := fun d => p d.line) (fun _ _ hkey => congrArg (fun k => p k.2.2.2) hkey)
    (chunks.flatMap (keptOf settings path forest))
  constructor
  case core =>
    intro line hfirst hlast
    obtain ⟨c, hc, hcore⟩ := hall line hfirst hlast
    exact ⟨c, ⟨hc, hcore⟩, fun b hb => Chunk.eq_of_inCore hcores hb.1 hc hb.2 hcore⟩
  case line =>
    intro c hc line hcore
    rw [hselect (· == line), filter_flatMap_keptOf hcores hlines hc (p := (· == line))
      (fun l hl => by rwa [beq_iff_eq.1 hl])]
    exact Dependency.deduplicates_merge _
  case order =>
    nth_rewrite 1 [Keyed.merge_flatMap Dependency.keepsKey_surer hdisjoint]
    refine List.flatMap_congr fun c hc => ?_
    rw [hselect c.inCore, filter_flatMap_keptOf hcores hlines hc (fun _ h => h),
      keptOf_eq (hlines c hc)]
  case apart =>
    refine hdisjoint.imp fun hab d hd e he hkey => ?_
    exact hab (List.mem_map_of_mem hd) (hkey ▸ List.mem_map_of_mem he)

/-! ### Files read by chunks -/

theorem dependencies_finish (settings : Settings) (source : Bytes) (f : Findings) :
    (finish settings source f).dependencies = f.dependencies := by
  unfold finish
  split <;> rfl

end Parse

/-- The findings of a file that is read by chunks hold each dependency once: those on a line are
what the one chunk has seen there whose core holds the line, without duplicates. -/
theorem Findings.ofFile_dependencies {settings : Settings} {path : Path} {source : Bytes}
    {chunks : List Chunk} (forest : Forest)
    (hread : Parse.IsReadBy settings path source forest.whole chunks)
    (hlines : ∀ c ∈ chunks, Parse.SeesOwnLines settings path forest c) :
    ∃ f, ofFile settings path source forest = .ok f ∧
      Parse.SeenOnce settings path forest chunks source.lines.length f.dependencies := by
  obtain ⟨tree, -, hfile⟩ := hread.ofFile_eq
  refine ⟨_, hfile, ?_⟩
  obtain ⟨-, -, tree', -, boundaries, strategy, -, hsplit⟩ := hread.cut
  rw [Parse.dependencies_finish, Parse.dependencies_chunked]
  refine Parse.seenOnce_merge ?_ ?_ hlines
  · rw [hsplit]
    exact Chunk.pairwise_coreBefore_split ..
  · rw [hsplit]
    exact fun line hfirst hlast => Chunk.exists_inCore_split _ _ _ _ _ hfirst hlast

/-- Two classes, the first with a call. The second of the chunks repeats the lines from the call
on. -/
def callInOverlap : Bytes :=
  .ofString "class A\n\x7b\nvoid F()\n\x7b\nG();\n\x7d\n\x7d\nclass B\n\x7b\n\x7d\n"

namespace callInOverlap

/-- The tree of the first class. The prelude of the second chunk takes as much room as the lines it
stands for, so that both chunks have it at the same place. -/
def first : Node :=
  .mk { name := "class_declaration", start := 0, stop := 29 } [
    .mk { name := "identifier", field := "name", start := 6, stop := 7 } [],
    .mk { name := "declaration_list", field := "body", start := 8, stop := 29 } [
      .mk { name := "method_declaration", start := 10, stop := 27 } [
        .mk { name := "identifier", field := "name", start := 15, stop := 16 } [],
        .mk { name := "block", field := "body", start := 19, stop := 27 } [
          .mk { name := "invocation_expression", start := 21, stop := 24 } [
            .mk { name := "identifier", field := "function", start := 21, stop := 22 } [],
            .mk { name := "argument_list", field := "arguments", start := 22, stop := 24 } []]]]]]

/-- The tree of the second class. -/
def second : Node :=
  .mk { name := "class_declaration", start := 30, stop := 41 } [
    .mk { name := "identifier", field := "name", start := 36, stop := 37 } [],
    .mk { name := "declaration_list", field := "body", start := 38, stop := 41 } []]

/-- The tree of a text with the given declarations. -/
def unit (declarations : List Node) : Node :=
  .mk { name := "compilation_unit", start := 0, stop := 42 } declarations

/-- The tree of the file. -/
def tree : Node := unit [first, second]

/-- The trees of the file and of its chunks. -/
def forest : Forest where
  whole := tree
  chunks := [unit [first], tree]

def settings : Settings := { chunking := { maxChunkBytes := 36, overlapLines := 3 } }

/-- The chunks: the first seven lines, and the lines from the fifth on. -/
def chunks : List Chunk :=
  Chunk.split settings.chunking callInOverlap [30] (.ofTree tree callInOverlap)
    (.ofSource callInOverlap)

end callInOverlap

open callInOverlap in
/-- Both chunks see the call on the fifth line, and the file has it once. -/
theorem Findings.ofFile_dependencies_callInOverlap :
    (chunks.map fun c => (Parse.seenIn settings ⟨"A.cs"⟩ forest c).map Dependency.line) =
        [[5], [5]] ∧
      ∃ f, ofFile settings ⟨"A.cs"⟩ callInOverlap forest = .ok f ∧
        (f.dependencies.filter (·.line == 5)).map Dependency.key = [("A.F", "G", .calls, 5)] := by
  have hread : Parse.IsReadBy settings ⟨"A.cs"⟩ callInOverlap forest.whole chunks :=
    ⟨by decide +kernel, [30], .declarations, by decide +kernel⟩
  have hlines : ∀ c ∈ chunks, ∀ d ∈ Parse.seenIn settings ⟨"A.cs"⟩ forest c,
      c.startLine ≤ d.line ∧ d.line ≤ c.endLine := by
    decide +kernel
  have hcore : ∃ c ∈ chunks, c.inCore 5 = true ∧
      (((Parse.seenIn settings ⟨"A.cs"⟩ forest c).filter (·.line == 5)).map
        Dependency.key).eraseDups = [("A.F", "G", .calls, 5)] := by
    decide +kernel
  obtain ⟨f, hf, hseen⟩ := ofFile_dependencies forest hread hlines
  obtain ⟨c, hc, hinCore, hkeys⟩ := hcore
  exact ⟨by decide +kernel, f, hf, (hseen.line c hc 5 hinCore).keys.trans hkeys⟩

end SymbolAtlas
