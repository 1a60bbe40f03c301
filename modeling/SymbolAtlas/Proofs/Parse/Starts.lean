import Mathlib.Tactic
import SymbolAtlas.Proofs.Boundary.Packing
import SymbolAtlas.Proofs.Chunk.Tiling
import SymbolAtlas.Proofs.Parse.Entry

/-!
# Where chunks start

Every chunk but the first starts right behind a newline. Whether that newline is live code, so that
the chunk does not start inside a literal or a comment, depends on how its start came about: a
ranked line end is live code, and `Chunk.Unguarded` lists all else that a start can be.

* `Division.stop_cases_of_mem_divide` — a chunk reaches to the next cut, or is too large for that,
  or had to give up its overlap for its first line.
* `Chunk.offset_cases` — the start of a chunk of a plan.
* `Parse.starts_of_plan_eq` — the same for all chunks that a file is cut into.
* `Parse.exists_start_not_isCode` — a chunk that starts inside a comment.
-/

namespace SymbolAtlas

/-! ### Where chunks end -/

namespace Division

/-- The first cut past a line, or the end of the file. -/
def nextCut (cuts : List Nat) (total core : Nat) : Nat := (cuts.find? (core < ·)).getD total

theorem stop_fit_cases (edges : Array Nat) (limit : Nat) (d : Division) :
    (fit edges limit d).stop = d.stop ∨ limit < bytesBetween edges d.start d.stop := by
  rw [fit]
  split
  case isTrue hover => exact Or.inr hover
  case isFalse => exact Or.inl rfl

/-- A chunk keeps its start, unless it is too large even with a single line of its own. -/
theorem start_fit_cases (edges : Array Nat) (limit : Nat) {d : Division} (hstart : d.start ≤ d.core)
    (hstop : d.core < d.stop) :
    (fit edges limit d).start = d.start ∨
      (fit edges limit d).start = d.core ∧ (fit edges limit d).stop = d.core + 1 ∧
        d.start < d.core ∧ limit < bytesBetween edges d.start (d.core + 1) := by
  fun_induction fit edges limit d with
  | case1 d hover hlong trim ih =>
    have htrim : trim ≤ d.stop - d.core - 1 := Nat.min_le_right _ _
    exact ih hstart (by show d.core < d.stop - trim; omega)
  | case2 d hover hshort hoverlap ih =>
    -- Nothing is left to give up: neither an overlap nor a second line.
    have h := shrinks_fit edges limit (d := { d with start := d.core }) le_rfl hstop
    have hlast : d.stop = d.core + 1 := by omega
    refine Or.inr ⟨le_antisymm h.start_le_core h.start_le, ?_, hoverlap, hlast ▸ hover⟩
    exact le_antisymm (h.stop_le.trans hlast.le) h.core_lt_stop
  | case3 d hover hshort halone => exact Or.inl rfl
  | case4 d hfits => exact Or.inl rfl

/-- A chunk ends at the next cut, or is too large with the lines up to there, or was so even with a
single line behind its overlap. -/
theorem stop_cases_of_mem_divide {edges : Array Nat} {limit overlap total : Nat} {cuts : List Nat}
    {fuel : Nat} {last : Option Nat} {core : Nat} (hlast : ∀ p ∈ last, p < core) {d : Division}
    (hd : d ∈ divide edges limit overlap total cuts fuel last core) :
    d.stop = nextCut cuts total d.core ∨
      (d.stop < nextCut cuts total d.core ∧
        limit < bytesBetween edges d.start (nextCut cuts total d.core)) ∨
      (d.start = d.core ∧ d.stop = d.core + 1 ∧ ∃ start, d.core - start ≤ overlap ∧
        start < d.core ∧ limit < bytesBetween edges start d.stop) := by
  obtain ⟨before, hbefore, hcore, heq⟩ := exists_next_of_mem_divide hlast hd
  obtain ⟨hle, hwide, -⟩ := overlapStart_bounds edges limit overlap hbefore
  let e : Division :=
    ⟨overlapStart edges limit overlap before d.core, d.core, nextCut cuts total d.core⟩
  have hfit : d = fit edges limit e := heq
  have hshrinks : Shrinks e (fit edges limit e) :=
    shrinks_fit edges limit hle (lt_find?_getD hcore)
  rw [← hfit] at hshrinks
  have hstops := stop_fit_cases edges limit e
  have hstarts := start_fit_cases edges limit (d := e) hle (lt_find?_getD hcore)
  rw [← hfit] at hstops hstarts
  rcases hshrinks.stop_le.eq_or_lt with hstop | hstop
  · exact Or.inl hstop
  · rcases hstarts with hstart | ⟨hstart, hsingle, hoverlap, hlarge⟩
    · exact Or.inr (Or.inl ⟨hstop, hstart ▸ hstops.resolve_left hstop.ne⟩)
    · exact Or.inr (Or.inr ⟨hstart, hsingle, e.start, hwide, hoverlap, hsingle ▸ hlarge⟩)

end Division

/-! ### Where chunks start -/

/-- Live code is shown as it is. -/
theorem Mask.getElem?_of_shown {s : Bytes} {n : Nat} {b : Byte}
    (hshown : (ofSource s).shown[n]? = some b) (hcode : (ofSource s).code[n]? = some true) :
    s[n]? = some b := by
  rw [shown_ofSource, List.getElem?_zipWith_eq_some] at hshown
  obtain ⟨b', code, hb', hlive, rfl⟩ := hshown
  rw [code_ofSource, hlive, Option.some.injEq] at hcode
  rw [hb', hcode]
  rfl

/-- The offsets that a plan cuts at. -/
def Plan.boundaries : Plan → List Nat
  | .split boundaries _ => boundaries
  | .unchunked _ => []

namespace Chunk

open Division

/-- The offset in a file at which a chunk of it starts. -/
def offset (source : Bytes) (c : Chunk) : Nat :=
  (source.lines.take (c.startLine - 1)).flatten.length

/-- The start of a chunk came about without regard to what is live code. -/
inductive Unguarded (settings : Settings.Chunking) (source : Bytes) (tree : Node)
    (boundaries : List Nat) (chunks : List Chunk) (c : Chunk) : Prop
  /-- The chunk starts with lines of the one before. -/
  | overlap (lt : c.startLine < c.coreStartLine)
  /-- The chunk before was too large with the lines up to the next boundary, and gave up some. -/
  | trimmed (before : Chunk) (stop : Nat) (mem : before ∈ chunks)
      (endLine : before.endLine + 1 = c.coreStartLine) (lt : before.endLine < stop)
      (next : ∀ b ∈ boundaries, b < source.length → before.coreStartLine ≤ source.rowAt b →
        stop ≤ source.rowAt b)
      (large : settings.limit <
        ((source.lines.take stop).drop (before.startLine - 1)).flatten.length)
  /-- The chunk before was too large with any line behind those repeated, and kept one line without
  them. -/
  | alone (before : Chunk) (repeated : Nat) (mem : before ∈ chunks)
      (endLine : before.endLine + 1 = c.coreStartLine) (single : before.startLine = before.endLine)
      (pos : 0 < repeated) (le : repeated ≤ settings.overlapLines)
      (lt : repeated < before.startLine)
      (large : settings.limit < ((source.lines.take before.endLine).drop
        (before.startLine - 1 - repeated)).flatten.length)
  /-- The chunk starts with the line after one on which a declaration ends. -/
  | declaration (d : Nat × Nat) (mem : d ∈ tree.topLevelDeclarations)
      (eq : c.offset source = (Cutter.ofMask settings (.ofSource source)).nextLine d.2)
  /-- The chunk starts with the line of a boundary that was forced, there being no ranked line end
  within reach of the one before. -/
  | forced (b start limit : Nat) (mem : b ∈ boundaries) (row : source.rowAt b + 1 = c.startLine)
      (start_mem : start ∈ 0 :: boundaries)
      (out : (Cutter.ofMask settings (.ofSource source)).OutOfReach start limit)
      (eq : b = (Cutter.ofMask settings (.ofSource source)).forcedCut start
        ((Cutter.ofMask settings (.ofSource source)).highEdge start limit))

section

variable {settings : Settings.Chunking} {source : Bytes} {tree : Node} {boundaries : List Nat}

/-- The line after another one begins behind a newline. -/
theorem getElem?_pred_nextLine {stop : Nat}
    (hlt : (Cutter.ofMask settings (.ofSource source)).nextLine stop < source.length) :
    0 < (Cutter.ofMask settings (.ofSource source)).nextLine stop ∧
      source[(Cutter.ofMask settings (.ofSource source)).nextLine stop - 1]? =
        some Byte.newline := by
  have hsize : (Cutter.ofMask settings (.ofSource source)).mask.size = source.length :=
    Mask.length_code_ofSource source
  rcases (Cutter.ofMask settings (.ofSource source)).nextLine_cases stop with hend | ⟨hbehind, hmem⟩
  · omega
  · have hpos := Nat.zero_lt_of_lt hbehind
    rw [Cutter.lineStarts_ofMask] at hmem
    exact ⟨hpos, Cutter.getElem?_pred_of_mem_lineStarts hmem hpos⟩

/-- A chunk that starts on the line of a boundary starts behind live code, unless the boundary was
found without regard to it. -/
theorem offset_cases_of_origin {b : Nat} (hb : b ∈ boundaries) (hlt : b < source.length) {c : Chunk}
    (hrow : source.rowAt b + 1 = c.startLine) (chunks : List Chunk)
    (horigin : Cutter.Origin (.ofMask settings (.ofSource source)) tree.topLevelDeclarations
      (0 :: boundaries) b) :
    (Mask.ofSource source).isCode (c.offset source - 1) = true ∨
      c.Unguarded settings source tree boundaries chunks := by
  have hoffset : 0 < b → source[b - 1]? = some Byte.newline → c.offset source = b := by
    intro hpos hnl
    have hlength := length_take_rowAt hnl
    rw [Nat.sub_add_cancel hpos] at hlength
    rw [offset, ← hrow, Nat.add_sub_cancel, hlength]
  cases horigin with
  | ranked k mem offset_eq =>
    obtain ⟨hpos, hshown, hcode⟩ := Candidate.of_mem_ofMask mem
    rw [offset_eq] at hpos hshown hcode
    rw [hoffset hpos (Mask.getElem?_of_shown hshown hcode), Mask.isCode, hcode]
    exact Or.inl rfl
  | declaration d mem eq =>
    rw [eq] at hlt
    obtain ⟨hpos, hnl⟩ := getElem?_pred_nextLine hlt
    rw [← eq] at hpos hnl
    exact Or.inr (.declaration d mem ((hoffset hpos hnl).trans eq))
  | forced start limit mem out eq => exact Or.inr (.forced b start limit hb hrow mem out eq)

/-- The lines of a chunk and of the one before it. -/
theorem exists_divisions_of_mem_tail (outline : Outline) (mask : Mask) {c : Chunk}
    (hc : c ∈ (split settings source boundaries outline mask).tail) :
    ∃ a ∈ divisions settings source boundaries, ∃ d ∈ divisions settings source boundaries,
      ∃ i, d.core = a.stop ∧ a.start < d.start ∧
        ofDivision source (lineEdges source).toArray outline mask
          (divisions settings source boundaries).length a i ∈
            split settings source boundaries outline mask ∧
        c = ofDivision source (lineEdges source).toArray outline mask
          (divisions settings source boundaries).length d (i + 1) := by
  have hmem : ∀ {d i}, (divisions settings source boundaries)[i]? = some d →
      ofDivision source (lineEdges source).toArray outline mask
        (divisions settings source boundaries).length d i ∈
          split settings source boundaries outline mask := by
    intro d i hd
    rw [split_eq]
    exact List.mem_map_of_mem (f := fun e => ofDivision source _ outline mask _ e.1 e.2)
      (List.mk_mem_zipIdx_iff_getElem?.2 hd)
  obtain ⟨i, hi⟩ := List.mem_iff_getElem?.1 hc
  rw [List.getElem?_tail, split_eq, List.getElem?_map, List.getElem?_zipIdx, Option.map_map,
    Option.map_eq_some_iff] at hi
  obtain ⟨d, hd, rfl⟩ := hi
  obtain ⟨hlt, rfl⟩ := List.getElem?_eq_some_iff.1 hd
  obtain ⟨hcore, hstart⟩ := (tiles_divisions settings source boundaries).isChain.getElem i hlt
  refine ⟨_, List.getElem_mem _, _, List.getElem_mem hlt, i, hcore, hstart, hmem ?_, ?_⟩
  · exact List.getElem?_eq_getElem _
  · simp only [Function.comp, Nat.zero_add]

/-- A cut that is not the end of the file is the row of a boundary. -/
theorem exists_rowAt_eq_nextCut {core : Nat}
    (h : nextCut (cutLines (lineEdges source) boundaries) source.lines.length core <
      source.lines.length) :
    ∃ b ∈ boundaries, b < source.length ∧ source.rowAt b =
      nextCut (cutLines (lineEdges source) boundaries) source.lines.length core := by
  rw [nextCut] at h ⊢
  cases hfind : (cutLines (lineEdges source) boundaries).find? (core < ·) with
  | none =>
    rw [hfind, Option.getD_none] at h
    exact absurd h (lt_irrefl _)
  | some cut =>
    rw [Option.getD_some]
    have hmem := List.mem_of_find?_eq_some hfind
    obtain ⟨⟨b, hb, hline⟩, -⟩ := mem_cutLines.1 hmem
    have hlt := lt_length_of_countP_lt (hline ▸ cutLines_lt_length source boundaries cut hmem)
    rw [countP_lineEdges hlt, Nat.add_sub_cancel] at hline
    exact ⟨b, hb, hlt, hline⟩

/-- A chunk that is not the last ends with the line in front of a boundary, or it is too large with
the lines up to the next one, or was so even with a single line behind those repeated. -/
theorem stop_cases {a : Division} (ha : a ∈ divisions settings source boundaries)
    (hstop : a.stop < source.lines.length) :
    (∃ b ∈ boundaries, b < source.length ∧ source.rowAt b = a.stop) ∨
      (∃ stop, a.stop < stop ∧
        (∀ b ∈ boundaries, b < source.length → a.core < source.rowAt b → stop ≤ source.rowAt b) ∧
        settings.limit < ((source.lines.take stop).drop a.start).flatten.length) ∨
      (a.start + 1 = a.stop ∧ ∃ repeated, 0 < repeated ∧ repeated ≤ settings.overlapLines ∧
        repeated ≤ a.start ∧ settings.limit <
          ((source.lines.take a.stop).drop (a.start - repeated)).flatten.length) := by
  have htotal := cutLines_lt_length source boundaries
  obtain ⟨last, htile⟩ := (tiles_divisions settings source boundaries).exists_tile ha
  rcases stop_cases_of_mem_divide (by simp) ha with
    hcut | ⟨hlt, hlarge⟩ | ⟨hstart, hsingle, start, hwide, hoverlap, hlarge⟩
  · rw [hcut] at hstop ⊢
    exact Or.inl (exists_rowAt_eq_nextCut hstop)
  · refine Or.inr (Or.inl ⟨nextCut (cutLines (lineEdges source) boundaries) source.lines.length
      a.core, hlt, fun b hb hblt hrow => ?_, ?_⟩)
    · exact find?_getD_le (pairwise_cutLines _ _) (mem_cutLines_lineEdges hb hblt (by omega)) hrow
    · have hle : a.start ≤ a.stop := htile.start_le.trans htile.lt_stop.le
      rwa [bytesBetween_lineEdges (hle.trans hlt.le) (find?_getD_le_total htotal)] at hlarge
  · refine Or.inr (Or.inr ⟨hstart ▸ hsingle.symm, a.core - start, Nat.sub_pos_of_lt hoverlap, hwide,
      hstart ▸ Nat.sub_le _ _, ?_⟩)
    rw [bytesBetween_lineEdges (hoverlap.le.trans htile.lt_stop.le) htile.stop_le] at hlarge
    rwa [hstart, Nat.sub_sub_self hoverlap.le]

theorem content_isPrefix_ofDivision {d : Division} (hstart : d.start ≤ d.core)
    (hstop : d.core < d.stop) (htotal : d.stop ≤ source.lines.length) (outline : Outline)
    (mask : Mask) (final index : Nat) :
    (ofDivision source (lineEdges source).toArray outline mask final d index).content <+:
      source.drop (source.lines.take d.start).flatten.length := by
  have hdrop : source.drop (source.lines.take d.start).flatten.length =
      ((source.lines.take d.stop).drop d.start).flatten ++ (source.lines.drop d.stop).flatten := by
    have hsource := flatten_eq_append source.lines (hstart.trans hstop.le)
    rw [Bytes.flatten_lines] at hsource
    calc source.drop (source.lines.take d.start).flatten.length
      _ = ((source.lines.take d.start).flatten ++ _).drop _ := congrArg _ hsource
      _ = _ := List.drop_left
  rw [content_ofDivision hstart hstop htotal, hdrop]
  exact List.prefix_append _ _

/-- A chunk of a plan starts behind a newline, and that is live code or comes about without regard
to it. -/
theorem offset_cases {strategy : Strategy}
    (hplan : (Cutter.ofMask settings (.ofSource source)).plan (some tree) =
      .split boundaries strategy) (outline : Outline) (mask : Mask) {c : Chunk}
    (hc : c ∈ (split settings source boundaries outline mask).tail) :
    c.content <+: source.drop (c.offset source) ∧ 0 < c.offset source ∧
      source[c.offset source - 1]? = some Byte.newline ∧
      ((Mask.ofSource source).isCode (c.offset source - 1) = true ∨
        c.Unguarded settings source tree boundaries
          (split settings source boundaries outline mask)) := by
  obtain ⟨a, ha, d, hd, i, hcore, hbefore, hamem, rfl⟩ :=
    exists_divisions_of_mem_tail outline mask hc
  obtain ⟨last, htile⟩ := (tiles_divisions settings source boundaries).exists_tile hd
  have hlt : d.core < source.lines.length := htile.lt_stop.trans_le htile.stop_le
  obtain ⟨hoffset, hnewline⟩ :=
    getElem?_pred_edge (Nat.zero_lt_of_lt hbefore) (htile.start_le.trans_lt hlt)
  refine ⟨content_isPrefix_ofDivision htile.start_le htile.lt_stop htile.stop_le .., hoffset,
    hnewline, ?_⟩
  rcases htile.start_le.lt_or_eq with hoverlap | hstart
  · exact Or.inr (.overlap (Nat.succ_lt_succ hoverlap))
  · -- Without an overlap, the chunk starts where the one before ends.
    have hend := congrArg (· + 1) hcore.symm
    rcases stop_cases ha (hcore ▸ hlt) with
      ⟨b, hb, hblt, hrow⟩ | ⟨stop, hgiven, hnext, hlarge⟩ |
      ⟨hsingle, repeated, hpos, hle, hfirst, hlarge⟩
    · refine offset_cases_of_origin hb hblt ?_ _
        (Cutter.origin_of_plan_eq (Cutter.ordered_ofMask _ _) hplan b hb)
      exact congrArg (· + 1) (hrow.trans (hstart.trans hcore).symm)
    · exact Or.inr (.trimmed _ stop hamem hend hgiven hnext hlarge)
    · exact Or.inr (.alone _ repeated hamem hend hsingle hpos hle (Nat.lt_succ_of_le hfirst) hlarge)

end

end Chunk

namespace Parse

/-- **The chunks after the first start behind a newline.** It is live code, so that the chunk does
not start inside a literal or a comment, unless the start came about without regard to that. -/
theorem starts_of_plan_eq {settings : Settings} {path : Path} {source : Bytes} {tree : Node}
    {p : ChunkPlan} (h : plan settings path source tree = .ok p) :
    ∀ c ∈ p.chunks.tail, c.content <+: source.drop (c.offset source) ∧ 0 < c.offset source ∧
      source[c.offset source - 1]? = some Byte.newline ∧
      ((Mask.ofSource source).isCode (c.offset source - 1) = true ∨
        c.Unguarded settings.chunking source tree p.plan.boundaries p.chunks) := by
  intro c hc
  obtain ⟨-, ⟨-, rfl⟩ | ⟨-, found, htree, hplan, hchunks⟩⟩ := plan_cases h
  · cases hc
  · obtain rfl := Except.ok.inj htree
    rw [hchunks] at hc ⊢
    cases hp : p.plan with
    | split boundaries strategy =>
      rw [hp] at hplan hc
      exact Chunk.offset_cases hplan.symm _ _ hc
    | unchunked reason =>
      rw [hp] at hc
      cases hc

/-- Two classes, the first with a comment of two lines. The second of the chunks repeats the second
of these lines. -/
def commentInOverlap : Bytes :=
  .ofString "class A \x7b /*\n*/ \x7d\nclass B \x7b \x7d\n"

namespace commentInOverlap

def tree : Node :=
  .mk { name := "compilation_unit", start := 0, stop := 30 } [
    .mk { name := "class_declaration", start := 0, stop := 17 } [
      .mk { name := "identifier", field := "name", start := 6, stop := 7 } [],
      .mk { name := "declaration_list", field := "body", start := 8, stop := 17 } [
        .mk { name := "comment", start := 10, stop := 15 } []]],
    .mk { name := "class_declaration", start := 18, stop := 29 } [
      .mk { name := "identifier", field := "name", start := 24, stop := 25 } [],
      .mk { name := "declaration_list", field := "body", start := 26, stop := 29 } []]]

/-- Chunks of at most twenty bytes that repeat so many lines. -/
def settings (overlapLines : Nat) : Settings :=
  { chunking := { maxChunkBytes := 20, overlapLines } }

end commentInOverlap

open commentInOverlap

/-- Without overlap the second chunk starts with the second class. -/
theorem starts_of_plan_eq_comment :
    ∃ p, plan (settings 0) ⟨"A.cs"⟩ commentInOverlap tree = .ok p ∧
      p.chunks.tail.map (Chunk.offset commentInOverlap) = [18] ∧
      ∀ c ∈ p.chunks.tail, c.content <+: commentInOverlap.drop (c.offset commentInOverlap) ∧
        0 < c.offset commentInOverlap ∧
        commentInOverlap[c.offset commentInOverlap - 1]? = some Byte.newline ∧
        ((Mask.ofSource commentInOverlap).isCode (c.offset commentInOverlap - 1) = true ∨
          c.Unguarded (settings 0).chunking commentInOverlap tree p.plan.boundaries p.chunks) := by
  have hplan : plan (settings 0) ⟨"A.cs"⟩ commentInOverlap tree = .ok _ := rfl
  exact ⟨_, hplan, by decide +kernel, starts_of_plan_eq hplan⟩

/-- With overlap it starts inside the comment. -/
theorem exists_start_not_isCode :
    ∃ p, plan (settings 1) ⟨"A.cs"⟩ commentInOverlap tree = .ok p ∧
      ∃ c ∈ p.chunks.tail, c.offset commentInOverlap = 13 ∧
        commentInOverlap[c.offset commentInOverlap - 1]? = some Byte.newline ∧
        (Mask.ofSource commentInOverlap).isCode (c.offset commentInOverlap - 1) = false :=
  ⟨_, rfl, by decide +kernel⟩

end Parse

end SymbolAtlas
