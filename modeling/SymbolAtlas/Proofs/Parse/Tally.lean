import Mathlib.Tactic
import SymbolAtlas.Proofs.Chunk.Tiling
import SymbolAtlas.Proofs.Parse.Containers

/-!
# A plan tells what is done

`Parse.plan` says into which chunks a file would be cut, and `Findings.ofFile` reads the file. Both
refuse the same files for the same reason, and where they accept a file, as many chunks are counted
as processed as the plan has, or one if the file is read whole (`Findings.ofFile_plan`).

The two do not ask the same question: a file up to `maxChunkBytes` is read whole without a look at
its plan, while a plan cuts nothing up to `Chunking.limit`, which is never zero. They agree because
a file within the limit is a single chunk (`Chunk.length_split_of_le`), because each chunk counts as
one, also where it cannot be read (`Parse.chunksProcessed_ofChunk`), and because merging adds the
counts up.

Nor do they ask for a parser alike. Where nothing is ever cut, a plan is made without one, and
reading still needs one, so that a parser has to be there (`Parsed.HasParser`). Without it only the
reading fails (`Parse.ofFile_of_noParser`).
-/

namespace SymbolAtlas

/-! ### The number of chunks -/

namespace Division

/-- Behind the last line nothing is left to divide. -/
theorem divide_total (edges : Array Nat) (limit overlap total : Nat) (cuts : List Nat) (fuel : Nat)
    (last : Option Nat) : divide edges limit overlap total cuts fuel last total = [] := by
  cases fuel with
  | zero => rfl
  | succ fuel => simp [divide]

/-- Without cuts, the first chunk takes all lines if they fit. -/
theorem next_nil_of_le {edges : Array Nat} {limit total : Nat} (overlap : Nat)
    (h : bytesBetween edges 0 total ≤ limit) :
    next edges limit overlap total [] none 0 = ⟨0, 0, total⟩ := by
  unfold next
  rw [fit, if_neg]
  · rfl
  · exact Nat.not_lt.2 h

end Division

namespace Chunk

open Bytes Division

variable (settings : Settings.Chunking) {source : Bytes} (boundaries : List Nat) (outline : Outline)
  (mask : Mask)

theorem length_split : (split settings source boundaries outline mask).length =
    (divisions settings source boundaries).length := by
  simp [split_eq]

theorem length_split_pos (hsource : source ≠ []) :
    0 < (split settings source boundaries outline mask).length := by
  have htotal : 0 < source.lines.length := List.length_pos_iff.2 (lines_ne_nil hsource)
  obtain ⟨d, hd, -⟩ := (tiles_divisions settings source boundaries).head? htotal
  rw [length_split]
  exact List.length_pos_of_mem (List.mem_of_mem_head? hd)

/-- A file within the limit is one chunk. -/
theorem length_split_of_le (h : source.length ≤ settings.limit) :
    (split settings source [] outline mask).length ≤ 1 := by
  have hbytes : bytesBetween (lineEdges source).toArray 0 source.lines.length ≤ settings.limit := by
    rw [bytesBetween, getD_lineEdges le_rfl, List.take_length, flatten_lines]
    omega
  have hcuts : cutLines (lineEdges source) [] = [] := by
    simp [cutLines, List.eraseReps, List.eraseRepsBy]
  rw [length_split, divisions, hcuts]
  cases hfuel : source.lines.length with
  | zero => simp [divide]
  | succ fuel =>
    rw [hfuel] at hbytes
    rw [divide, if_pos (Nat.succ_pos fuel), next_nil_of_le _ hbytes]
    simp only [divide_total, List.length_singleton, le_refl]

end Chunk

namespace Parse

/-! ### The count of one chunk -/

theorem tally_dropEchoes (chunk : Chunk) (f : Findings) : (dropEchoes chunk f).tally = f.tally := by
  unfold dropEchoes
  split <;> rfl

/-- A chunk that cannot be read is counted as well. -/
theorem chunksProcessed_place (chunk : Chunk) (lineOffset : Nat) {f : Findings}
    (h : f.tally.chunksProcessed = 1) :
    (place chunk lineOffset f).tally.chunksProcessed = 1 := by
  unfold place
  split
  · rfl
  · rw [tally_dropEchoes]
    exact h

theorem chunksProcessed_ofParsed (path : Path) (text : Bytes) (options : ExtractOptions)
    (parsed : Parsed) : (ofParsed path text options parsed).tally.chunksProcessed = 1 := by
  cases parsed <;> rfl

theorem chunksProcessed_ofChunk (settings : Settings) (path : Path) (chunk : Chunk)
    (parsed : Parsed) : (ofChunk settings path chunk parsed).tally.chunksProcessed = 1 :=
  chunksProcessed_place chunk _ (chunksProcessed_ofParsed ..)

/-! ### The count of a file -/

theorem chunksProcessed_whole (settings : Settings) (path : Path) (source : Bytes)
    (tree : Option Node) : (whole settings path source tree).tally.chunksProcessed = 1 := by
  cases tree with
  | none => rfl
  | some root => exact Findings.chunksProcessed_merge _

/-- The issues of the whole file, which are merged with the chunks, are no chunk. -/
theorem chunksProcessed_chunked (settings : Settings) (path : Path) (source : Bytes)
    (tree : Option Node) (outline : Outline) (forest : Forest) (chunks : List Chunk) :
    (chunked settings path source tree outline forest chunks).tally.chunksProcessed =
      chunks.length := by
  have hsyntax :
      ((tree.toList.map (syntaxPart source)).map (·.tally.chunksProcessed)).sum = 0 := by
    cases tree <;> rfl
  refine (Findings.chunksProcessed_merge _).trans ?_
  rw [List.map_append, List.sum_append, hsyntax, List.map_map]
  simp [Function.comp_def, chunksProcessed_ofChunk]

theorem tally_finish (settings : Settings) (source : Bytes) (f : Findings) :
    (finish settings source f).tally = f.tally := by
  unfold finish
  simp only
  split <;> rfl

/-- Reading a file processes the chunks that its plan has, or the whole file if there are none. -/
theorem chunksProcessed_extract {settings : Settings} (henabled : settings.chunking.enabled = true)
    (path : Path) (source : Bytes) (tree : Option Node) (forest : Forest) :
    (extract settings path source tree forest).tally.chunksProcessed =
      max 1 (chunksOf settings source (.ofSource source) tree
        ((Cutter.ofMask settings.chunking (.ofSource source)).plan tree)).length := by
  unfold extract
  by_cases hsmall : source.length ≤ settings.chunking.maxChunkBytes
  · -- The plan of a file that is read whole is a single chunk.
    have hlimit : source.length ≤ settings.chunking.limit := hsmall.trans (Nat.le_max_right _ _)
    have hplan : (Cutter.ofMask settings.chunking (.ofSource source)).plan tree =
        .split [] .declarations := by
      simp [Cutter.plan, Cutter.ofMask, Mask.size, hlimit]
    have hchunks := Chunk.length_split_of_le settings.chunking
      (outlineOf source (.ofSource source) tree) (.ofSource source) hlimit
    rw [if_pos (by simp [hsmall]), chunksProcessed_whole, hplan, chunksOf]
    omega
  · rw [if_neg (by simp [henabled, hsmall])]
    simp only
    cases (Cutter.ofMask settings.chunking (.ofSource source)).plan tree with
    | unchunked reason => exact chunksProcessed_whole settings path source tree
    | split boundaries strategy =>
      have hsource : source ≠ [] := by
        rintro rfl
        exact hsmall (Nat.zero_le _)
      have hpos := Chunk.length_split_pos settings.chunking boundaries
        (outlineOf source (.ofSource source) tree) (.ofSource source) hsource
      rw [chunksProcessed_chunked, chunksOf]
      omega

/-- Without a parser a file is not read, but it has a plan if nothing is ever cut. -/
theorem ofFile_of_noParser {settings : Settings} {path : Path} {source : Bytes} {forest : Forest}
    {reason : String} (h : check settings path source = .ok ())
    (hwhole : forest.whole = .noParser reason) :
    Findings.ofFile settings path source forest = .error (.noParser path reason) ∧
      plan settings path source forest.whole =
        if settings.chunking.enabled then .error (.noParser path reason)
        else .ok { plan := .unchunked "chunking disabled", chunks := [] } := by
  rw [ofFile_of_accepted h, hwhole]
  refine ⟨rfl, ?_⟩
  cases henabled : settings.chunking.enabled with
  | false => exact plan_of_disabled h henabled _
  | true => rw [plan_of_enabled h henabled]; rfl

end Parse

/-- A file is refused by its plan and by its reading alike. Otherwise as many chunks are processed
as the plan has, where a plan without chunks stands for the whole file. Where nothing is ever cut,
only the reading asks for a parser, which then has to be there. -/
theorem Findings.ofFile_plan (settings : Settings) (path : Path) (source : Bytes)
    (forest : Forest) (hparser : settings.chunking.enabled = false → forest.whole.HasParser) :
    (ofFile settings path source forest).map (·.tally.chunksProcessed) =
      (Parse.plan settings path source forest.whole).map fun p => max 1 p.chunks.length := by
  cases hcheck : Parse.check settings path source with
  | error failure =>
    rw [Parse.ofFile_of_refused hcheck, Parse.plan_of_refused hcheck]
    rfl
  | ok =>
    rw [Parse.ofFile_of_accepted hcheck]
    cases henabled : settings.chunking.enabled with
    | false =>
      obtain ⟨tree, htree⟩ := (hparser henabled).exists_tree? path
      have hwhole : Parse.extract settings path source tree forest =
          Parse.whole settings path source tree := by
        simp [Parse.extract, henabled]
      rw [Parse.plan_of_disabled hcheck henabled, htree]
      simp [Except.map, Parse.tally_finish, hwhole, Parse.chunksProcessed_whole]
    | true =>
      rw [Parse.plan_of_enabled hcheck henabled]
      cases forest.whole.tree? path with
      | error failure => rfl
      | ok tree =>
        simp [Except.map, Parse.tally_finish, Parse.chunksProcessed_extract henabled]

namespace classInParts

/-- What the grammar makes of the file and its chunks: no chunk can be read. -/
def unreadable : Forest where
  whole := classInPartsTree
  chunks := [.noTree, .noParser "Incompatible language version 15"]

/-- Chunks of at most twenty bytes, or none. -/
def settings (enabled : Bool) : Settings :=
  { chunking := { enabled, maxChunkBytes := 20, overlapLines := 0 } }

end classInParts

open classInParts in
/-- Both chunks of the plan are processed, although neither can be read. Without chunks the file is
processed as a whole. -/
theorem Findings.ofFile_plan_unreadable :
    (ofFile (settings true) ⟨"A.cs"⟩ classInParts unreadable).map (·.tally.chunksProcessed) =
        .ok 2 ∧
      (ofFile (settings true) ⟨"A.cs"⟩ classInParts unreadable).map
          (fun f => f.issues.map fun i => (i.line, i.message)) =
        .ok [(1, "chunk 0 (lines 1-3) failed: failed to parse A.cs as csharp"),
          (4, "chunk 1 (lines 4-6) failed: failed to initialize parser for A.cs: " ++
            "Incompatible language version 15")] ∧
      (ofFile (settings false) ⟨"A.cs"⟩ classInParts unreadable).map (·.tally.chunksProcessed) =
        .ok 1 := by
  have hplan (enabled : Bool) : (ofFile (settings enabled) ⟨"A.cs"⟩ classInParts unreadable).map
      (·.tally.chunksProcessed) = _ :=
    ofFile_plan (settings enabled) ⟨"A.cs"⟩ classInParts unreadable fun _ => trivial
  refine ⟨(hplan true).trans ?_, by decide +kernel, (hplan false).trans ?_⟩ <;> decide +kernel

end SymbolAtlas
