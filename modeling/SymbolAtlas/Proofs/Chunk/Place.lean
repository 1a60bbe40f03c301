import Mathlib.Tactic
import SymbolAtlas.Proofs.Chunk.Tiling
import SymbolAtlas.Proofs.Mask.Braces
import SymbolAtlas.Proofs.Scope.Prelude
import SymbolAtlas.Proofs.Scope.Recorded

/-!
# The place of a chunk in its file

`Chunk.Placed` says where a chunk of a file stands: which text is in front of it and behind it, and
what context and closing braces follow from that (`exists_placed_of_mem_split`).

A chunk is parsed behind a prelude, which takes up a line of its own. Adding the line offset of the
wrapped text to a row of it gives the row of the file, for every place of the content
(`split_keepsLines`), and so for every node that a grammar finds there. The offset is a difference
that could fall below zero: a chunk with a prelude that starts with the first line would be moved
too little. There is none, because nothing is open where a file begins
(`Placed.prelude_eq_nil`).
-/

namespace SymbolAtlas.Chunk

open Bytes Division

/-- The offset in the file at which the text of a chunk begins. -/
def offsetIn (source : Bytes) (c : Chunk) : Nat :=
  (source.lines.take (c.startLine - 1)).flatten.length

/-- The chunk stands between `front` and `back`, and is wrapped in what is open there. -/
structure Placed (source : Bytes) (outline : Outline) (mask : Mask) (front back : Bytes)
    (c : Chunk) : Prop where
  source_eq : source = front ++ (c.content ++ back)
  offsetIn_eq : c.offsetIn source = front.length
  startLine_eq : c.startLine = front.count Byte.newline + 1
  frames_eq : c.context.frames = (outline.contextAt front.length).frames
  openBlocks_eq : c.context.openBlocks =
    mask.braceDepth front.length - (outline.contextAt front.length).scopeBraces
  closingBraces_eq : c.closingBraces =
    c.context.openedBraces + mask.braceDepth (front.length + c.content.length) -
      mask.braceDepth front.length

/-- Every chunk of a file has its place there. -/
theorem exists_placed_of_mem_split {settings : Settings.Chunking} {source : Bytes}
    {boundaries : List Nat} {outline : Outline} {mask : Mask} {c : Chunk}
    (hc : c ∈ split settings source boundaries outline mask) :
    ∃ front back, Placed source outline mask front back c := by
  obtain ⟨d, last, i, htile, rfl⟩ :=
    exists_tile_of_mem_split settings source boundaries outline mask hc
  have hle : d.start ≤ d.stop := htile.start_le.trans htile.lt_stop.le
  have hlt : d.start < source.lines.length :=
    (htile.start_le.trans_lt htile.lt_stop).trans_le htile.stop_le
  have hcontent := content_ofDivision htile.start_le htile.lt_stop htile.stop_le outline mask
    (divisions settings source boundaries).length i
  have hfirst := getD_lineEdges hlt.le
  have hlast : (lineEdges source).toArray.getD d.stop 0 =
      (source.lines.take d.start).flatten.length +
        ((source.lines.take d.stop).drop d.start).flatten.length := by
    rw [getD_lineEdges htile.stop_le, flatten_take_eq_append _ hle, List.length_append]
  refine ⟨(source.lines.take d.start).flatten, (source.lines.drop d.stop).flatten, ?_⟩
  constructor
  case source_eq => rw [hcontent, ← flatten_eq_append _ hle, flatten_lines]
  case offsetIn_eq => rfl
  case startLine_eq => rw [count_newline_take_lines hlt]; rfl
  case frames_eq => rw [← hfirst]; rfl
  case openBlocks_eq => rw [← hfirst]; rfl
  case closingBraces_eq => rw [hcontent, ← hlast, ← hfirst]; rfl

/-- What stands in the wrapped text of a chunk stands on the same line of the file, once the line
offset is added. -/
structure KeepsLines (source : Bytes) (c : Chunk) : Prop where
  /-- Behind the prelude stands the content, as it does in the file. -/
  byte : ∀ p < c.content.length,
    c.wrapped.text[c.wrapped.preludeSize + p]? = c.content[p]? ∧
      source[c.offsetIn source + p]? = c.content[p]?
  row : ∀ p ≤ c.content.length,
    c.wrapped.text.rowAt (c.wrapped.preludeSize + p) + c.wrapped.lineOffset =
      source.rowAt (c.offsetIn source + p)
  /-- The lines of a node behind the prelude become lines of the file. -/
  node : ∀ n : Node, ∀ p ≤ c.content.length, ∀ q ≤ c.content.length,
    n.start = c.wrapped.preludeSize + p → n.stop = c.wrapped.preludeSize + q →
      n.startLine c.wrapped.text + c.wrapped.lineOffset =
          source.rowAt (c.offsetIn source + p) + 1 ∧
        n.endLine c.wrapped.text + c.wrapped.lineOffset =
          source.rowAt (c.offsetIn source + q) + 1

theorem text_wrapped (c : Chunk) :
    c.wrapped.text = ofString c.context.prelude ++
      (c.content ++ closing (ofString c.context.prelude ++ c.content) c.closingBraces) := by
  rw [← List.append_assoc]
  rfl

theorem rowAt_wrapped (c : Chunk) {p : Nat} (hp : p ≤ c.content.length) :
    c.wrapped.text.rowAt (c.wrapped.preludeSize + p) =
      (ofString c.context.prelude).count Byte.newline + c.content.rowAt p := by
  rw [text_wrapped]
  exact rowAt_between _ _ _ hp

namespace Placed

variable {source : Bytes} {outline : Outline} {mask : Mask} {front back : Bytes} {c : Chunk}
  (h : Placed source outline mask front back c)

include h

/-- What is open around a chunk are scopes of the outline. -/
theorem exists_scope {f : Frame} (hf : f ∈ c.context.frames) :
    ∃ s ∈ outline.scopes, ∃ pending, f = s.frame pending := by
  rw [h.frames_eq] at hf
  exact Outline.mem_contextAt hf

theorem rowAt_source {p : Nat} (hp : p ≤ c.content.length) :
    source.rowAt (c.offsetIn source + p) = front.count Byte.newline + c.content.rowAt p := by
  rw [h.offsetIn_eq]
  nth_rewrite 1 [h.source_eq]
  exact rowAt_between _ _ _ hp

/-- Nothing is open where a file begins, so a chunk on its first line has no prelude. -/
theorem prelude_eq_nil (hopen : ∀ s ∈ outline.scopes, 0 < s.openByte)
    (hfirst : front.count Byte.newline = 0) : ofString c.context.prelude = [] := by
  have hfront : front.length = 0 := by
    rw [← h.offsetIn_eq, offsetIn, h.startLine_eq, hfirst]
    rfl
  have hframes : c.context.frames = [] := by
    rw [h.frames_eq, hfront, Outline.contextAt_zero hopen]
  have hblocks : c.context.openBlocks = 0 := by
    rw [h.openBlocks_eq, hfront, Mask.braceDepth_zero, Nat.zero_sub]
  refine Context.prelude_of_isEmpty ?_
  rw [Context.isEmpty, hframes, hblocks]
  rfl

/-- The line taken up by the prelude is taken off the offset again. -/
theorem count_prelude_add_lineOffset (hopen : ∀ s ∈ outline.scopes, 0 < s.openByte)
    (hlacks : ∀ f ∈ c.context.frames, f.Lacks '\n') :
    (ofString c.context.prelude).count Byte.newline + c.wrapped.lineOffset =
      front.count Byte.newline := by
  have hoffset : c.wrapped.lineOffset = front.count Byte.newline -
      if (ofString c.context.prelude).isEmpty then 0 else 1 := by
    rw [wrapped, lineOffset, h.startLine_eq, Nat.add_sub_cancel]
  rw [hoffset, Context.count_newline_prelude hlacks]
  cases hempty : (ofString c.context.prelude).isEmpty with
  | true => simp
  | false =>
    have hpos : front.count Byte.newline ≠ 0 := fun hfirst => by
      rw [h.prelude_eq_nil hopen hfirst] at hempty
      cases hempty
    simp only [Bool.false_eq_true, if_false]
    omega

theorem row_eq (hopen : ∀ s ∈ outline.scopes, 0 < s.openByte)
    (hlacks : ∀ f ∈ c.context.frames, f.Lacks '\n') {p : Nat} (hp : p ≤ c.content.length) :
    c.wrapped.text.rowAt (c.wrapped.preludeSize + p) + c.wrapped.lineOffset =
      source.rowAt (c.offsetIn source + p) := by
  have hlines := h.count_prelude_add_lineOffset hopen hlacks
  rw [rowAt_wrapped c hp, h.rowAt_source hp]
  omega

theorem byte_eq {p : Nat} (hp : p < c.content.length) :
    c.wrapped.text[c.wrapped.preludeSize + p]? = c.content[p]? ∧
      source[c.offsetIn source + p]? = c.content[p]? := by
  have hbetween (front back : Bytes) :
      (front ++ (c.content ++ back))[front.length + p]? = c.content[p]? := by
    rw [List.getElem?_append_right (Nat.le_add_right _ _), Nat.add_sub_cancel_left,
      List.getElem?_append_left hp]
  refine ⟨?_, ?_⟩
  · rw [text_wrapped]
    exact hbetween _ _
  · rw [h.offsetIn_eq]
    nth_rewrite 1 [h.source_eq]
    exact hbetween _ _

end Placed

/-- Every byte of a chunk keeps its line: for every text, all boundaries and settings, and every
outline read off a tree or a mask in which no name runs over a line end. -/
theorem split_keepsLines (settings : Settings.Chunking) (source : Bytes) (boundaries : List Nat)
    {outline : Outline} (hread : outline.IsRead)
    (hnames : ∀ s ∈ outline.scopes, '\n' ∉ s.name.toList) (mask : Mask) :
    ∀ c ∈ split settings source boundaries outline mask, c.KeepsLines source := by
  intro c hc
  obtain ⟨front, back, hplaced⟩ := exists_placed_of_mem_split hc
  have hopen : ∀ s ∈ outline.scopes, 0 < s.openByte := fun s hs => (hread.plain hs).openByte_pos
  have hlacks : ∀ f ∈ c.context.frames, f.Lacks '\n' := by
    intro f hf
    obtain ⟨s, hs, pending, rfl⟩ := hplaced.exists_scope hf
    exact ⟨hnames s hs, (hread.plain hs).keyword_line⟩
  constructor
  case byte => exact fun p hp => hplaced.byte_eq hp
  case row => exact fun p hp => hplaced.row_eq hopen hlacks hp
  case node =>
    intro n p hp q hq hstart hstop
    have hfirst := hplaced.row_eq hopen hlacks hp
    have hlast := hplaced.row_eq hopen hlacks hq
    rw [Node.startLine, Node.endLine, hstart, hstop]
    omega

/-- A class on four lines, with a field in it. -/
def fieldInClass : Bytes := ofString "class C\n\x7b\nint x;\n\x7d\n"

/-- The tree of `fieldInClass`. -/
def fieldInClassTree : Node :=
  .mk { name := "compilation_unit", start := 0, stop := 19 } [
    .mk { name := "class_declaration", start := 0, stop := 18 } [
      .mk { name := "identifier", field := "name", start := 6, stop := 7 } [],
      .mk { name := "declaration_list", field := "body", start := 8, stop := 18 } [
        .mk { name := "field_declaration", start := 10, stop := 16 } []]]]

/-- Cut in front of the field, the class has a second chunk that starts with the third line and has
a prelude. -/
theorem split_keepsLines_fieldInClass :
    (Outline.ofTree fieldInClassTree fieldInClass).IsRead ∧
      (∀ s ∈ (Outline.ofTree fieldInClassTree fieldInClass).scopes, '\n' ∉ s.name.toList) ∧
      ∃ c ∈ split { overlapLines := 0 } fieldInClass [10] (.ofTree fieldInClassTree fieldInClass)
          (.ofSource fieldInClass),
        c.startLine = 3 ∧ c.context.prelude = "class C \x7b\n" ∧ c.KeepsLines fieldInClass := by
  have hread : (Outline.ofTree fieldInClassTree fieldInClass).IsRead := Or.inl ⟨_, _, rfl⟩
  have hnames : ∀ s ∈ (Outline.ofTree fieldInClassTree fieldInClass).scopes,
      '\n' ∉ s.name.toList := by
    decide +kernel
  obtain ⟨c, hc, hstart, hprelude⟩ :
      ∃ c ∈ split { overlapLines := 0 } fieldInClass [10] (.ofTree fieldInClassTree fieldInClass)
        (.ofSource fieldInClass), c.startLine = 3 ∧ c.context.prelude = "class C \x7b\n" := by
    decide +kernel
  exact ⟨hread, hnames, c, hc, hstart, hprelude, split_keepsLines _ _ _ hread hnames _ c hc⟩

end SymbolAtlas.Chunk
