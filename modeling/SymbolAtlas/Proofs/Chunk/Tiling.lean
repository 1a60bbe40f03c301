import Mathlib.Tactic
import SymbolAtlas.Chunk.Split
import SymbolAtlas.Proofs.Text.Lines

/-!
# Chunks cover their file

Dividing the lines of a file into chunks neither loses nor repeats a line, whatever the cuts and
the sizes of the lines are.

* `Division.Shrinks` is what fitting a chunk into the limit may do to it: it gives up lines at
  either end, but keeps its core start and the first line of its core (`shrinks_fit`).
* `Division.Tiles` says that chunks follow each other without a gap up to the last line, reach back
  into their predecessors by a bounded number of lines, and step over no cut. The lines are so
  divided by `Division.divide`, which never runs out of fuel (`tiles_divide`).
* `Chunk.Covers` is the same for the finished chunks and their texts (`split_covers`).
-/

namespace SymbolAtlas

namespace Division

/-! ### One chunk -/

/-- The second division is the first without some lines at either end, where the core keeps its
first line. -/
structure Shrinks (d d' : Division) : Prop where
  core_eq : d'.core = d.core
  start_le : d.start ≤ d'.start
  start_le_core : d'.start ≤ d.core
  core_lt_stop : d.core < d'.stop
  stop_le : d'.stop ≤ d.stop

theorem Shrinks.refl {d : Division} (hstart : d.start ≤ d.core) (hstop : d.core < d.stop) :
    Shrinks d d :=
  ⟨rfl, le_rfl, hstart, hstop, le_rfl⟩

theorem shrinks_fit (edges : Array Nat) (limit : Nat) {d : Division} (hstart : d.start ≤ d.core)
    (hstop : d.core < d.stop) : Shrinks d (fit edges limit d) := by
  fun_induction fit edges limit d with
  | case1 d hover hlong trim ih =>
    -- The trim is at most one line short of the core, so that the core keeps a line.
    have htrim : trim ≤ d.stop - d.core - 1 := Nat.min_le_right _ _
    have h := ih hstart (by show d.core < d.stop - trim; omega)
    exact ⟨h.core_eq, h.start_le, h.start_le_core, h.core_lt_stop,
      h.stop_le.trans (Nat.sub_le _ _)⟩
  | case2 d hover hshort hoverlap ih =>
    have h := ih le_rfl hstop
    exact ⟨h.core_eq, hstart.trans h.start_le, h.start_le_core, h.core_lt_stop, h.stop_le⟩
  | case3 d hover hshort halone => exact Shrinks.refl hstart hstop
  | case4 d hfits => exact Shrinks.refl hstart hstop

theorem shrinkOverlap_bounds (edges : Array Nat) (limit : Nat) {core start : Nat}
    (h : start ≤ core) :
    start ≤ shrinkOverlap edges limit core start ∧
      shrinkOverlap edges limit core start ≤ core := by
  fun_induction shrinkOverlap edges limit core start with
  | case1 start hmove ih =>
    have := ih hmove.1
    omega
  | case2 start hstay => exact ⟨le_rfl, h⟩

/-- A chunk starts at most `overlap` lines before its core, and after the chunk before. -/
theorem overlapStart_bounds (edges : Array Nat) (limit overlap : Nat) {last : Option Nat}
    {core : Nat} (hlast : ∀ p ∈ last, p < core) :
    overlapStart edges limit overlap last core ≤ core ∧
      core - overlapStart edges limit overlap last core ≤ overlap ∧
      ∀ p ∈ last, p < overlapStart edges limit overlap last core := by
  cases last with
  | none => simp [overlapStart]
  | some p =>
    have hp : p < core := hlast p rfl
    have hle : min (max (core - overlap) (p + 1)) core ≤ core := Nat.min_le_right _ _
    obtain ⟨hlow, hhigh⟩ := shrinkOverlap_bounds edges limit hle
    refine ⟨hhigh, ?_, ?_⟩
    · simp only [overlapStart]
      omega
    · intro q hq
      obtain rfl := Option.mem_some_iff.1 hq
      simp only [overlapStart]
      omega

/-! ### The cuts -/

theorem eraseReps_loop_sublist (a : Nat) (as acc : List Nat) :
    ∃ kept, List.eraseRepsBy.loop (· == ·) a as acc = acc.reverse ++ kept ∧
      kept.Sublist (a :: as) ∧ ∀ x, x ∈ kept ↔ x = a ∨ x ∈ as := by
  induction as generalizing a acc with
  | nil => exact ⟨[a], by simp [List.eraseRepsBy.loop], List.Sublist.refl _, by simp⟩
  | cons b as ih =>
    by_cases hab : a = b
    · subst hab
      obtain ⟨kept, hloop, hsub, hmem⟩ := ih a acc
      refine ⟨kept, by simpa [List.eraseRepsBy.loop] using hloop, hsub.trans ?_, ?_⟩
      · exact (List.sublist_cons_self a as).cons_cons a
      · intro x
        rw [hmem, List.mem_cons]
        tauto
    · obtain ⟨kept, hloop, hsub, hmem⟩ := ih b (a :: acc)
      refine ⟨a :: kept, ?_, hsub.cons_cons a, ?_⟩
      · rw [List.eraseRepsBy.loop, show (a == b) = false by simpa using hab]
        simpa using hloop
      · intro x
        rw [List.mem_cons, hmem, List.mem_cons]

/-- Erasing repetitions keeps the order and every value. -/
theorem eraseReps_sublist (as : List Nat) :
    as.eraseReps.Sublist as ∧ ∀ x, x ∈ as.eraseReps ↔ x ∈ as := by
  cases as with
  | nil => exact ⟨List.Sublist.refl _, fun _ => Iff.rfl⟩
  | cons a as =>
    obtain ⟨kept, hloop, hsub, hmem⟩ := eraseReps_loop_sublist a as []
    have h : (a :: as).eraseReps = kept := by simpa [List.eraseReps, List.eraseRepsBy] using hloop
    rw [h]
    exact ⟨hsub, fun x => by rw [hmem, List.mem_cons]⟩

theorem mem_cutLines {edges boundaries : List Nat} {l : Nat} :
    l ∈ cutLines edges boundaries ↔
      (∃ b ∈ boundaries, edges.countP (· ≤ b) - 1 = l) ∧ 0 < l ∧ l < edges.length - 1 := by
  simp only [cutLines, (eraseReps_sublist _).2, List.mem_mergeSort, List.mem_filter, List.mem_map,
    Bool.and_eq_true, decide_eq_true_eq]

theorem pairwise_cutLines (edges boundaries : List Nat) :
    (cutLines edges boundaries).Pairwise (· ≤ ·) := by
  have hsorted (lines : List Nat) :
      (lines.mergeSort fun a b => decide (a ≤ b)).Pairwise fun a b => decide (a ≤ b) = true :=
    List.pairwise_mergeSort (by simp only [decide_eq_true_eq]; omega)
      (by simp only [Bool.or_eq_true, decide_eq_true_eq]; omega) lines
  exact ((hsorted _).imp fun hab => by simpa using hab).sublist (eraseReps_sublist _).1

/-- Of ascending cuts, the first one past a line is the least. -/
theorem find?_getD_le {cuts : List Nat} (hcuts : cuts.Pairwise (· ≤ ·)) {core total c : Nat}
    (hc : c ∈ cuts) (hcore : core < c) :
    (cuts.find? (core < ·)).getD total ≤ c := by
  cases hfind : cuts.find? (core < ·) with
  | none =>
    have := List.find?_eq_none.1 hfind c hc
    simp [hcore] at this
  | some first =>
    obtain ⟨-, before, after, rfl, hbefore⟩ := List.find?_eq_some_iff_append.1 hfind
    rw [Option.getD_some]
    rcases List.mem_append.1 hc with hin | hin
    · have := hbefore c hin
      simp [hcore] at this
    · rcases List.mem_cons.1 hin with rfl | hin
      · exact le_rfl
      · exact List.rel_of_pairwise_cons (List.pairwise_append.1 hcuts).2.1 hin

theorem lt_find?_getD {cuts : List Nat} {core total : Nat} (hcore : core < total) :
    core < (cuts.find? (core < ·)).getD total := by
  cases hfind : cuts.find? (core < ·) with
  | none => exact hcore
  | some first => simpa using List.find?_some hfind

theorem find?_getD_le_total {cuts : List Nat} {core total : Nat} (htotal : ∀ c ∈ cuts, c < total) :
    (cuts.find? (core < ·)).getD total ≤ total := by
  cases hfind : cuts.find? (core < ·) with
  | none => exact le_rfl
  | some first => exact (htotal first (List.mem_of_find?_eq_some hfind)).le

/-! ### All chunks -/

/-- The chunk `d` takes the lines from `core` on: at least one of them, not past one of the `cuts`
and not past `total`. It starts at most `overlap` lines before, and after `last`, where its
predecessor starts. -/
structure Tile (overlap total : Nat) (cuts : List Nat) (last : Option Nat) (core : Nat)
    (d : Division) : Prop where
  core_eq : d.core = core
  start_le : d.start ≤ core
  overlap_le : core - d.start ≤ overlap
  last_lt : ∀ p ∈ last, p < d.start
  lt_stop : core < d.stop
  stop_le : d.stop ≤ total
  stop_le_cut : ∀ c ∈ cuts, core < c → d.stop ≤ c

/-- The chunks take the lines from `core` up to `total`, each where the one before ends. -/
inductive Tiles (overlap total : Nat) (cuts : List Nat) : Option Nat → Nat → List Division → Prop
  | done (last : Option Nat) : Tiles overlap total cuts last total []
  | chunk {last : Option Nat} {core : Nat} {d : Division} {ds : List Division}
      (head : Tile overlap total cuts last core d)
      (rest : Tiles overlap total cuts (some d.start) d.stop ds) :
      Tiles overlap total cuts last core (d :: ds)

theorem tile_next (edges : Array Nat) (limit overlap : Nat) {total : Nat} {cuts : List Nat}
    (hcuts : cuts.Pairwise (· ≤ ·)) (htotal : ∀ c ∈ cuts, c < total) {last : Option Nat}
    {core : Nat} (hlast : ∀ p ∈ last, p < core) (hcore : core < total) :
    Tile overlap total cuts last core (next edges limit overlap total cuts last core) := by
  obtain ⟨hle, hwide, hafter⟩ := overlapStart_bounds edges limit overlap hlast
  have h : Shrinks _ (next edges limit overlap total cuts last core) :=
    shrinks_fit edges limit
      (d := ⟨overlapStart edges limit overlap last core, core, (cuts.find? (core < ·)).getD total⟩)
      hle (lt_find?_getD hcore)
  have hstart : overlapStart edges limit overlap last core ≤ _ := h.start_le
  exact {
    core_eq := h.core_eq
    start_le := h.start_le_core
    overlap_le := by omega
    last_lt := fun p hp => (hafter p hp).trans_le hstart
    lt_stop := h.core_lt_stop
    stop_le := h.stop_le.trans (find?_getD_le_total htotal)
    stop_le_cut := fun c hc hcc => h.stop_le.trans (find?_getD_le hcuts hc hcc) }

/-- Every chunk is the next one behind some lines that are divided already. -/
theorem exists_next_of_mem_divide {edges : Array Nat} {limit overlap total : Nat}
    {cuts : List Nat} {fuel : Nat} {last : Option Nat} {core : Nat} (hlast : ∀ p ∈ last, p < core)
    {d : Division} (hd : d ∈ divide edges limit overlap total cuts fuel last core) :
    ∃ before, (∀ p ∈ before, p < d.core) ∧ d.core < total ∧
      d = next edges limit overlap total cuts before d.core := by
  induction fuel generalizing last core with
  | zero => cases hd
  | succ fuel ih =>
    rw [divide] at hd
    split at hd
    case isFalse => cases hd
    case isTrue hcore =>
      obtain ⟨hle, -, -⟩ := overlapStart_bounds edges limit overlap hlast
      have hshrinks : Shrinks _ (next edges limit overlap total cuts last core) :=
        shrinks_fit edges limit
          (d := ⟨overlapStart edges limit overlap last core, core,
            (cuts.find? (core < ·)).getD total⟩) hle (lt_find?_getD hcore)
      have heq : (next edges limit overlap total cuts last core).core = core := hshrinks.core_eq
      rcases List.mem_cons.1 hd with rfl | hd
      · rw [heq]
        exact ⟨last, hlast, hcore, rfl⟩
      · refine ih (fun p hp => ?_) hd
        obtain rfl := Option.mem_some_iff.1 hp
        exact hshrinks.start_le_core.trans_lt hshrinks.core_lt_stop

/-- Every chunk takes a line of its own, so that as much fuel as there are lines is enough. -/
theorem tiles_divide (edges : Array Nat) (limit overlap : Nat) {total : Nat} {cuts : List Nat}
    (hcuts : cuts.Pairwise (· ≤ ·)) (htotal : ∀ c ∈ cuts, c < total) {fuel : Nat}
    {last : Option Nat} {core : Nat} (hlast : ∀ p ∈ last, p < core) (hcore : core ≤ total)
    (hfuel : total - core ≤ fuel) :
    Tiles overlap total cuts last core
      (divide edges limit overlap total cuts fuel last core) := by
  induction fuel generalizing last core with
  | zero =>
    obtain rfl : core = total := by omega
    exact .done last
  | succ fuel ih =>
    rw [divide]
    by_cases hlt : core < total
    · rw [if_pos hlt]
      have htile := tile_next edges limit overlap hcuts htotal hlast hlt
      refine .chunk htile (ih ?_ htile.stop_le ?_)
      · intro p hp
        obtain rfl := Option.mem_some_iff.1 hp
        exact htile.start_le.trans_lt htile.lt_stop
      · have := htile.lt_stop
        omega
    · rw [if_neg hlt]
      obtain rfl : core = total := by omega
      exact .done last

namespace Tiles

variable {overlap total : Nat} {cuts : List Nat} {last : Option Nat} {core : Nat}
  {ds : List Division}

theorem exists_tile (h : Tiles overlap total cuts last core ds) {d : Division} (hd : d ∈ ds) :
    ∃ last, Tile overlap total cuts last d.core d := by
  induction h with
  | done => cases hd
  | chunk head rest ih =>
    rcases List.mem_cons.1 hd with rfl | hd
    · exact ⟨_, head.core_eq.symm ▸ head⟩
    · exact ih hd

/-- Each chunk goes on where the one before ends, and starts later. -/
theorem isChain (h : Tiles overlap total cuts last core ds) :
    ds.IsChain fun a b => b.core = a.stop ∧ a.start < b.start := by
  induction h with
  | done => exact .nil
  | chunk head rest ih =>
    cases rest with
    | done => exact .singleton _
    | chunk head' rest' => exact .cons_cons ⟨head'.core_eq, head'.last_lt _ rfl⟩ ih

theorem head? (h : Tiles overlap total cuts last core ds) (hcore : core < total) :
    ∃ d, ds.head? = some d ∧ d.core = core ∧ d.start ≤ core := by
  cases h with
  | done => exact absurd hcore (lt_irrefl _)
  | chunk head rest => exact ⟨_, rfl, head.core_eq, head.start_le⟩

theorem getLast? (h : Tiles overlap total cuts last core ds) (hcore : core < total) :
    ∃ d, ds.getLast? = some d ∧ d.stop = total := by
  induction h with
  | done => exact absurd hcore (lt_irrefl _)
  | @chunk last core d ds head rest ih =>
    rcases head.stop_le.eq_or_lt with hstop | hstop
    · cases rest with
      | done => exact ⟨d, rfl, hstop⟩
      | chunk head' _ => exact absurd (head'.lt_stop.trans_le head'.stop_le) (by omega)
    · obtain ⟨e, he, hend⟩ := ih hstop
      refine ⟨e, ?_, hend⟩
      rw [List.getLast?_cons, he]
      rfl

/-- Every cut is the beginning of a core. -/
theorem exists_core_eq (h : Tiles overlap total cuts last core ds) {c : Nat} (hc : c ∈ cuts)
    (hcore : core ≤ c) (htotal : c < total) : ∃ d ∈ ds, d.core = c := by
  induction h with
  | done => omega
  | chunk head rest ih =>
    rcases hcore.eq_or_lt with rfl | hlt
    · exact ⟨_, List.mem_cons_self, head.core_eq⟩
    · obtain ⟨d, hd, hdc⟩ := ih (head.stop_le_cut c hc hlt)
      exact ⟨d, List.mem_cons_of_mem _ hd, hdc⟩

/-- The lines of the cores, one chunk after the other, are the lines from `core` on. -/
theorem flatten_cores (h : Tiles overlap total cuts last core ds) {ls : List Bytes}
    (hls : ls.length = total) :
    (ds.map fun d => ((ls.take d.stop).drop d.core).flatten).flatten = (ls.drop core).flatten := by
  induction h with
  | done => rw [List.drop_eq_nil_of_le hls.le]; rfl
  | @chunk last core d ds head rest ih =>
    rw [List.map_cons, List.flatten_cons, ih, head.core_eq, ← List.flatten_append]
    congr 1
    have hdrop : (ls.drop core).drop (d.stop - core) = ls.drop d.stop := by
      rw [List.drop_drop, Nat.add_sub_cancel' head.lt_stop.le]
    rw [List.drop_take, ← hdrop, List.take_append_drop]

end Tiles

end Division

namespace Chunk

open Bytes Division

/-- The text of a chunk from its core start on. -/
def core (c : Chunk) : Bytes :=
  (c.content.lines.drop (c.coreStartLine - c.startLine)).flatten

/-- The chunks are the file, cut along its lines. -/
structure Covers (settings : Settings.Chunking) (source : Bytes) (boundaries : List Nat)
    (chunks : List Chunk) : Prop where
  first : chunks.head?.map startLine = some 1
  last : chunks.getLast?.map endLine = some source.lines.length
  consecutive : chunks.IsChain fun a b =>
    b.coreStartLine = a.endLine + 1 ∧ a.startLine < b.startLine
  ordered : ∀ c ∈ chunks, c.startLine ≤ c.coreStartLine ∧ c.coreStartLine ≤ c.endLine
  overlap : ∀ c ∈ chunks, c.coreStartLine - c.startLine ≤ settings.overlapLines
  indices : chunks.map index = List.range chunks.length
  final : ∀ c ∈ chunks, c.isFinal = true ↔ c.index + 1 = chunks.length
  /-- A chunk holds just the lines it names. -/
  content : ∀ c ∈ chunks,
    c.content = ((source.lines.take c.endLine).drop (c.startLine - 1)).flatten
  /-- The cores give back the file byte for byte. -/
  cores : (chunks.map core).flatten = source
  /-- A core begins with the line of each boundary, except for the first line. -/
  boundary : ∀ b ∈ boundaries, b < source.length → source.rowAt b ≠ 0 →
    ∃ c ∈ chunks, c.coreStartLine = source.rowAt b + 1
  unbroken : ∀ c ∈ chunks, ∀ b ∈ boundaries, b < source.length →
    ¬ (c.coreStartLine < source.rowAt b + 1 ∧ source.rowAt b + 1 ≤ c.endLine)

section

variable (settings : Settings.Chunking) (source : Bytes) (boundaries : List Nat)

/-- The lines that the chunks of a file take. -/
def divisions : List Division :=
  divide (lineEdges source).toArray settings.limit settings.overlapLines source.lines.length
    (cutLines (lineEdges source) boundaries) source.lines.length none 0

theorem split_eq (outline : Outline) (mask : Mask) :
    split settings source boundaries outline mask =
      (divisions settings source boundaries).zipIdx.map fun (d, i) =>
        ofDivision source (lineEdges source).toArray outline mask
          (divisions settings source boundaries).length d i := by
  simp only [split, divisions, length_lineEdges, Nat.add_sub_cancel]

theorem cutLines_lt_length : ∀ c ∈ cutLines (lineEdges source) boundaries,
    c < source.lines.length := by
  intro c hc
  have h := (mem_cutLines.1 hc).2.2
  rwa [length_lineEdges, Nat.add_sub_cancel] at h

theorem tiles_divisions :
    Tiles settings.overlapLines source.lines.length (cutLines (lineEdges source) boundaries) none 0
      (divisions settings source boundaries) :=
  tiles_divide _ _ _ (pairwise_cutLines _ _) (cutLines_lt_length source boundaries) (by simp)
    (Nat.zero_le _) (by omega)

end

/-- The cuts of a file are the rows of the boundaries inside it, less the first row. -/
theorem mem_cutLines_lineEdges {source : Bytes} {boundaries : List Nat} {b : Nat}
    (hb : b ∈ boundaries) (hlt : b < source.length) (hrow : source.rowAt b ≠ 0) :
    source.rowAt b ∈ cutLines (lineEdges source) boundaries := by
  refine mem_cutLines.2 ⟨⟨b, hb, ?_⟩, Nat.pos_of_ne_zero hrow, ?_⟩
  · rw [countP_lineEdges hlt, Nat.add_sub_cancel]
  · rw [length_lineEdges, Nat.add_sub_cancel]
    exact rowAt_lt_length_lines hlt

section

variable {source : Bytes} {d : Division} (hstart : d.start ≤ d.core) (hstop : d.core < d.stop)
  (htotal : d.stop ≤ source.lines.length) (outline : Outline) (mask : Mask) (final index : Nat)

include hstart hstop htotal

theorem content_ofDivision :
    (ofDivision source (lineEdges source).toArray outline mask final d index).content =
      ((source.lines.take d.stop).drop d.start).flatten :=
  slice_edges (hstart.trans hstop.le) htotal

theorem lines_content_ofDivision :
    (ofDivision source (lineEdges source).toArray outline mask final d index).content.lines =
      (source.lines.take d.stop).drop d.start := by
  have hlines := lines_flatten_drop (source.lines.take d.stop).flatten d.start
  rw [lines_flatten_take] at hlines
  rw [content_ofDivision hstart hstop htotal, hlines]

/-- The core of a chunk, read off its own text, is the core's share of the file. -/
theorem core_ofDivision :
    (ofDivision source (lineEdges source).toArray outline mask final d index).core =
      ((source.lines.take d.stop).drop d.core).flatten := by
  have hsum : d.start + (d.core + 1 - (d.start + 1)) = d.core := by omega
  rw [core, lines_content_ofDivision hstart hstop htotal, List.drop_drop]
  show (List.drop (d.start + (d.core + 1 - (d.start + 1))) _).flatten = _
  rw [hsum]

end

section

variable (settings : Settings.Chunking) (source : Bytes) (boundaries : List Nat)
  (outline : Outline) (mask : Mask)

theorem exists_division_of_mem_split {c : Chunk}
    (hc : c ∈ split settings source boundaries outline mask) :
    ∃ d ∈ divisions settings source boundaries, ∃ i,
      c = ofDivision source (lineEdges source).toArray outline mask
        (divisions settings source boundaries).length d i := by
  rw [split_eq] at hc
  obtain ⟨⟨d, i⟩, hd, rfl⟩ := List.mem_map.1 hc
  exact ⟨d, List.fst_mem_of_mem_zipIdx hd, i, rfl⟩

/-- Every chunk is made of the lines of a tile. -/
theorem exists_tile_of_mem_split {c : Chunk}
    (hc : c ∈ split settings source boundaries outline mask) :
    ∃ d last i, Tile settings.overlapLines source.lines.length
        (cutLines (lineEdges source) boundaries) last d.core d ∧
      c = ofDivision source (lineEdges source).toArray outline mask
        (divisions settings source boundaries).length d i := by
  obtain ⟨d, hd, i, rfl⟩ := exists_division_of_mem_split settings source boundaries outline mask hc
  obtain ⟨last, htile⟩ := (tiles_divisions settings source boundaries).exists_tile hd
  exact ⟨d, last, i, htile, rfl⟩

theorem flatten_map_core_split :
    ((split settings source boundaries outline mask).map core).flatten = source := by
  have htiles := tiles_divisions settings source boundaries
  have hcores : (split settings source boundaries outline mask).map core =
      (divisions settings source boundaries).map fun d =>
        ((source.lines.take d.stop).drop d.core).flatten := by
    rw [split_eq]
    nth_rewrite 3 [← List.zipIdx_map_fst 0 (divisions settings source boundaries)]
    rw [List.map_map, List.map_map]
    refine List.map_congr_left fun e he => ?_
    obtain ⟨last, htile⟩ := htiles.exists_tile (List.fst_mem_of_mem_zipIdx he)
    exact core_ofDivision htile.start_le htile.lt_stop htile.stop_le ..
  rw [hcores, htiles.flatten_cores rfl, List.drop_zero, flatten_lines]

end

/-- The chunks of a file cover it without gap or loss: for all boundaries, in any order, repeated or
outside the file, and whatever the scopes and the settings are. -/
theorem split_covers (settings : Settings.Chunking) {source : Bytes} (hsource : source ≠ [])
    (boundaries : List Nat) (outline : Outline) (mask : Mask) :
    Covers settings source boundaries (split settings source boundaries outline mask) := by
  have htiles := tiles_divisions settings source boundaries
  have hpos : 0 < source.lines.length := List.length_pos_of_ne_nil (lines_ne_nil hsource)
  have hsplit := split_eq settings source boundaries outline mask
  have hmem : ∀ c ∈ split settings source boundaries outline mask, _ :=
    fun c hc => exists_tile_of_mem_split settings source boundaries outline mask hc
  constructor
  case first =>
    obtain ⟨d, hd, -, hstart⟩ := htiles.head? hpos
    simp [hsplit, hd, ofDivision, Nat.le_zero.1 hstart]
  case last =>
    obtain ⟨d, hd, hstop⟩ := htiles.getLast? hpos
    simp [hsplit, List.getLast?_zipIdx, hd, ofDivision, hstop]
  case consecutive =>
    have hchain := htiles.isChain
    rw [← List.zipIdx_map_fst 0 (divisions settings source boundaries), List.isChain_map] at hchain
    rw [hsplit, List.isChain_map]
    refine hchain.imp fun a b hab => ?_
    simpa [ofDivision] using hab
  case ordered =>
    intro c hc
    obtain ⟨d, last, i, htile, rfl⟩ := hmem c hc
    have := htile.start_le
    have := htile.lt_stop
    simp only [ofDivision]
    omega
  case overlap =>
    intro c hc
    obtain ⟨d, last, i, htile, rfl⟩ := hmem c hc
    have := htile.overlap_le
    simp only [ofDivision]
    omega
  case indices =>
    rw [hsplit, List.map_map, List.length_map, List.length_zipIdx, List.range_eq_range',
      ← List.zipIdx_map_snd 0 (divisions settings source boundaries)]
    rfl
  case final =>
    intro c hc
    obtain ⟨d, last, i, -, rfl⟩ := hmem c hc
    simp [hsplit, ofDivision]
  case content =>
    intro c hc
    obtain ⟨d, last, i, htile, rfl⟩ := hmem c hc
    exact content_ofDivision htile.start_le htile.lt_stop htile.stop_le ..
  case cores => exact flatten_map_core_split settings source boundaries outline mask
  case boundary =>
    intro b hb hlt hrow
    -- The row of the boundary is a cut, and each cut begins a core.
    obtain ⟨d, hd, hcore⟩ := htiles.exists_core_eq (mem_cutLines_lineEdges hb hlt hrow)
      (Nat.zero_le _) (rowAt_lt_length_lines hlt)
    obtain ⟨i, hi⟩ := List.mem_iff_getElem?.1 hd
    rw [hsplit]
    refine ⟨_, List.mem_map_of_mem (List.mk_mem_zipIdx_iff_getElem?.2 hi), ?_⟩
    simp [ofDivision, hcore]
  case unbroken =>
    rintro c hc b hb hlt ⟨hcore, hend⟩
    obtain ⟨d, last, i, htile, rfl⟩ := hmem c hc
    simp only [ofDivision] at hcore hend
    -- A tile ends no later than the next cut, so it has no cut behind the start of its core.
    have := htile.stop_le_cut _ (mem_cutLines_lineEdges hb hlt (by omega)) (by omega)
    omega

/-- Three lines, the last without a newline, too long for one chunk, with boundaries out of order
and past the end. -/
theorem split_covers_three_lines :
    ([0x61, 0x0A, 0x62, 0x63, 0x0A, 0x64] : Bytes) ≠ [] ∧
      Covers { maxChunkBytes := 4, overlapLines := 1 } [0x61, 0x0A, 0x62, 0x63, 0x0A, 0x64]
        [9, 3, 5, 3, 0] (split { maxChunkBytes := 4, overlapLines := 1 }
          [0x61, 0x0A, 0x62, 0x63, 0x0A, 0x64] [9, 3, 5, 3, 0] {}
          (.ofSource [0x61, 0x0A, 0x62, 0x63, 0x0A, 0x64])) :=
  ⟨by decide, split_covers _ (by decide) _ _ _⟩

end Chunk

end SymbolAtlas
