import Mathlib.Tactic
import SymbolAtlas.Proofs.Chunk.Tiling

/-!
# How large chunks are

A chunk gives up lines until it fits: from its end as long as its core keeps one, then its overlap.
What is left may still be too large only if it is a single line.

* `Division.Fits` — what fitting leaves of a chunk, whatever the lengths of the lines are
  (`fits_fit`). So it holds of every chunk that a file is divided into (`fits_of_mem_divide`).
* `Chunk.split_bounded` — the sizes of the finished chunks and of what they repeat.
-/

namespace SymbolAtlas

namespace Division

variable {edges : Array Nat} {limit : Nat}

@[simp] theorem bytesBetween_self (edges : Array Nat) (line : Nat) :
    bytesBetween edges line line = 0 :=
  Nat.sub_self _

/-- The lines in front of the core take at most half of the limit, and all lines together fit into
it, unless there is but one. -/
structure Fits (edges : Array Nat) (limit : Nat) (d : Division) : Prop where
  overlap : bytesBetween edges d.start d.core ≤ limit / 2
  size : bytesBetween edges d.start d.stop ≤ limit ∨ d.start = d.core ∧ d.stop = d.core + 1

theorem bytesBetween_shrinkOverlap_le {core start : Nat} (h : start ≤ core) :
    bytesBetween edges (shrinkOverlap edges limit core start) core ≤ limit / 2 := by
  fun_induction shrinkOverlap edges limit core start with
  | case1 start hmove ih => exact ih hmove.1
  | case2 start hstay =>
    rcases h.eq_or_lt with rfl | hlt
    · simp
    · exact Nat.not_lt.1 fun hlarge => hstay ⟨hlt, hlarge⟩

theorem bytesBetween_overlapStart_le (overlap : Nat) (last : Option Nat) (core : Nat) :
    bytesBetween edges (overlapStart edges limit overlap last core) core ≤ limit / 2 := by
  cases last with
  | none => simp [overlapStart]
  | some last => exact bytesBetween_shrinkOverlap_le (Nat.min_le_right _ _)

theorem fits_fit {d : Division} (hstart : d.start ≤ d.core) (hstop : d.core < d.stop)
    (hoverlap : bytesBetween edges d.start d.core ≤ limit / 2) :
    Fits edges limit (fit edges limit d) := by
  fun_induction fit edges limit d with
  | case1 d hover hlong trim ih =>
    -- The overlap is not touched, and the core keeps its first line.
    have htrim : trim ≤ d.stop - d.core - 1 := Nat.min_le_right _ _
    exact ih hstart (by show d.core < d.stop - trim; omega) hoverlap
  | case2 d hover hshort hbefore ih =>
    refine ih le_rfl hstop ?_
    rw [bytesBetween_self]
    exact Nat.zero_le _
  | case3 d hover hshort halone =>
    exact ⟨hoverlap, Or.inr ⟨by omega, by omega⟩⟩
  | case4 d hfits => exact ⟨hoverlap, Or.inl (Nat.not_lt.1 hfits)⟩

theorem fits_of_mem_divide {overlap total : Nat} {cuts : List Nat} {fuel : Nat}
    {last : Option Nat} {core : Nat} (hlast : ∀ p ∈ last, p < core) {d : Division}
    (hd : d ∈ divide edges limit overlap total cuts fuel last core) : Fits edges limit d := by
  obtain ⟨before, hbefore, hcore, heq⟩ := exists_next_of_mem_divide hlast hd
  obtain ⟨hle, -, -⟩ := overlapStart_bounds edges limit overlap hbefore
  rw [heq]
  exact fits_fit hle (lt_find?_getD hcore) (bytesBetween_overlapStart_le overlap before d.core)

end Division

namespace Chunk

open Bytes Division

/-- The text of a chunk that the chunk before holds too. -/
def repeated (c : Chunk) : Bytes :=
  (c.content.lines.take (c.coreStartLine - c.startLine)).flatten

/-- The chunk holds at most `limit` bytes, or it is one line of the file that is longer, without
overlap. What it repeats takes at most half of the limit. -/
structure Bounded (limit : Nat) (source : Bytes) (c : Chunk) : Prop where
  size : c.content.length ≤ limit ∨
    limit < c.content.length ∧ source.lines[c.startLine - 1]? = some c.content ∧
      c.endLine = c.startLine ∧ c.coreStartLine = c.startLine
  overlap : c.repeated.length ≤ limit / 2

section

variable {source : Bytes} {d : Division} (hstart : d.start ≤ d.core) (hstop : d.core < d.stop)
  (htotal : d.stop ≤ source.lines.length) (outline : Outline) (mask : Mask) (final index : Nat)

include hstart hstop htotal

theorem length_content_ofDivision :
    (ofDivision source (lineEdges source).toArray outline mask final d index).content.length =
      bytesBetween (lineEdges source).toArray d.start d.stop := by
  rw [content_ofDivision hstart hstop htotal,
    bytesBetween_lineEdges (hstart.trans hstop.le) htotal]

theorem length_repeated_ofDivision :
    (ofDivision source (lineEdges source).toArray outline mask final d index).repeated.length =
      bytesBetween (lineEdges source).toArray d.start d.core := by
  have hsum : d.start + (d.core + 1 - (d.start + 1)) = d.core := by omega
  have htake : (source.lines.take d.stop).take d.core = source.lines.take d.core := by
    rw [List.take_take, Nat.min_eq_left hstop.le]
  rw [repeated, lines_content_ofDivision hstart hstop htotal, List.take_drop,
    bytesBetween_lineEdges hstart (hstop.le.trans htotal)]
  show (List.drop d.start (List.take (d.start + (d.core + 1 - (d.start + 1))) _)).flatten.length = _
  rw [hsum, htake]

/-- A chunk of a single line holds that line of the file. -/
theorem content_ofDivision_of_stop_eq (hlone : d.stop = d.start + 1) :
    source.lines[d.start]? =
      some (ofDivision source (lineEdges source).toArray outline mask final d index).content := by
  have hlt : d.start < source.lines.length := by omega
  rw [content_ofDivision hstart hstop htotal, hlone, List.take_add_one,
    List.drop_append_of_le_length (by simp [hlt.le]), List.drop_take_self,
    List.getElem?_eq_getElem hlt]
  simp

end

/-- **Chunks are as small as asked for.** For all boundaries, scopes and settings, a chunk holds no
more bytes than the limit, unless it is a single line that is longer on its own, and then it repeats
nothing; and what a chunk repeats takes at most half of the limit. -/
theorem split_bounded (settings : Settings.Chunking) (source : Bytes) (boundaries : List Nat)
    (outline : Outline) (mask : Mask) :
    ∀ c ∈ split settings source boundaries outline mask, c.Bounded settings.limit source := by
  intro c hc
  obtain ⟨d, hd, i, rfl⟩ := exists_division_of_mem_split settings source boundaries outline mask hc
  obtain ⟨last, htile⟩ := (tiles_divisions settings source boundaries).exists_tile hd
  have hfits := fits_of_mem_divide (by simp) hd
  constructor
  case overlap =>
    rw [length_repeated_ofDivision htile.start_le htile.lt_stop htile.stop_le]
    exact hfits.overlap
  case size =>
    rw [length_content_ofDivision htile.start_le htile.lt_stop htile.stop_le]
    rcases Nat.lt_or_ge settings.limit
      (bytesBetween (lineEdges source).toArray d.start d.stop) with hlarge | hsmall
    · obtain ⟨hcore, hstop⟩ := hfits.size.resolve_left (Nat.not_le.2 hlarge)
      refine Or.inr ⟨hlarge, ?_, ?_, ?_⟩
      · exact content_ofDivision_of_stop_eq htile.start_le htile.lt_stop htile.stop_le outline mask
          _ _ (by omega)
      · show d.stop = d.start + 1
        omega
      · show d.core + 1 = d.start + 1
        omega
    · exact Or.inl hsmall

/-- Seven lines, of which the third is longer than a chunk of six bytes. -/
def longLine : Bytes := .ofString "a\nb\nxxxxxx\nc\nd\ne\nf\n"

/-- The chunks of `longLine`, which may repeat a line. -/
def longLineChunks : List Chunk :=
  split { maxChunkBytes := 6, overlapLines := 1 } longLine [] {} (.ofSource longLine)

/-- The long line is a chunk of its own, and the last chunk repeats a line. -/
theorem split_bounded_longLine :
    (∃ c ∈ longLineChunks, 6 < c.content.length ∧ c.Bounded 6 longLine) ∧
      ∃ c ∈ longLineChunks, c.repeated.length = 2 ∧ c.Bounded 6 longLine := by
  have hbounded : ∀ c ∈ longLineChunks, c.Bounded 6 longLine :=
    split_bounded { maxChunkBytes := 6, overlapLines := 1 } longLine [] {} (.ofSource longLine)
  have hlong : ∃ c ∈ longLineChunks, 6 < c.content.length := by decide +kernel
  have hrepeats : ∃ c ∈ longLineChunks, c.repeated.length = 2 := by decide +kernel
  obtain ⟨c, hc, hsize⟩ := hlong
  obtain ⟨e, he, hoverlap⟩ := hrepeats
  exact ⟨⟨c, hc, hsize, hbounded c hc⟩, ⟨e, he, hoverlap, hbounded e he⟩⟩

end Chunk

end SymbolAtlas
