import Mathlib.Tactic
import SymbolAtlas.Proofs.Chunk.Place

/-!
# Wrapped chunks are balanced

The braces around a chunk are counted three times over: by the scopes of the outline, by the depth
of the mask, and by the text of the prelude. Where the outline fits the mask (`Outline.Fits`) the
three agree, and the wrapped text of every chunk closes what it opens (`Chunk.split_balanced`).

The scopes open at a place come from different braces that are not yet matched there, so there are
no more of them than the depth says (`Outline.Fits.scopeBraces_le`). The blocks of a context are
the difference, which is therefore exact.
-/

namespace SymbolAtlas

namespace Outline

/-- The scopes of the outline are the braces of the mask: each one that has braces opens behind a
brace of its own and closes with the brace that matches it, if there is one. -/
@[mk_iff]
structure Fits (o : Outline) (m : Mask) : Prop where
  /-- Only namespaces do without braces. -/
  fileScoped : ∀ s ∈ o.scopes, s.fileScoped = true → s.kind = .nameSpace
  distinct : (o.scopes.filter (!·.fileScoped)).Pairwise fun s t => s.openByte ≠ t.openByte
  opened : ∀ s ∈ o.scopes, s.fileScoped = false →
    0 < s.openByte ∧ m.shown[s.openByte - 1]? = some Byte.openBrace
  closed : ∀ s ∈ o.scopes, s.fileScoped = false →
    m.matchingBrace (s.openByte - 1) = some s.closeByte ∨ m.matchingBrace (s.openByte - 1) = none
  /-- Names and keywords hold no braces. -/
  openless : ∀ s ∈ o.scopes, '\x7b' ∉ s.name.toList ∧ '\x7b' ∉ s.keyword.toList
  closeless : ∀ s ∈ o.scopes, '\x7d' ∉ s.name.toList ∧ '\x7d' ∉ s.keyword.toList

instance (o : Outline) (m : Mask) : Decidable (o.Fits m) :=
  decidable_of_iff _ (fits_iff o m).symm

/-- The scopes that hold a brace open at an offset. -/
def bracedAt (o : Outline) (offset : Nat) : List Scope :=
  o.scopes.filter fun s => s.isOpenAt offset && !s.fileScoped

/-- A scope that is pending or has no braces holds none open. -/
theorem braces_frameAt? (s : Scope) (offset : Nat) :
    ((s.frameAt? offset).map Frame.braces).getD 0 =
      if s.isOpenAt offset && !s.fileScoped then 1 else 0 := by
  unfold Scope.frameAt?
  cases hopen : s.isOpenAt offset with
  | true => cases hfile : s.fileScoped <;> simp [Scope.frame, Frame.braces, hfile]
  | false => cases hpending : s.isPendingAt offset <;> simp [Scope.frame, Frame.braces]

theorem scopeBraces_contextAt (o : Outline) (offset : Nat) :
    (o.contextAt offset).scopeBraces = (o.bracedAt offset).length := by
  obtain ⟨scopes⟩ := o
  rw [Context.scopeBraces_eq_sum]
  simp only [contextAt, bracedAt]
  induction scopes with
  | nil => rfl
  | cons s scopes ih =>
    have hbraces := braces_frameAt? s offset
    rw [List.filterMap_cons, List.filter_cons]
    cases hframe : s.frameAt? offset with
    | none =>
      rw [hframe] at hbraces
      split_ifs at hbraces ⊢
      · cases hbraces
      · exact ih
    | some f =>
      simp only [hframe, Option.map_some, Option.getD_some] at hbraces
      simp only [List.map_cons, List.sum_cons, ih, hbraces]
      split_ifs
      · rw [List.length_cons, Nat.add_comm]
      · rw [Nat.zero_add]

namespace Fits

variable {o : Outline} {m : Mask} (h : o.Fits m)

include h

/-- A scope that holds a brace open does so with one that the mask counts. -/
theorem mem_openBraces {offset : Nat} {s : Scope} (hs : s ∈ o.bracedAt offset) :
    s.openByte ∈ (m.openBraces offset).map (· + 1) := by
  obtain ⟨hmem, hhere⟩ := List.mem_filter.1 hs
  obtain ⟨hopen, hfile⟩ := Bool.and_eq_true_iff.1 hhere
  have hfile : s.fileScoped = false := by simpa using hfile
  obtain ⟨hle, hclose⟩ : s.openByte ≤ offset ∧ offset ≤ s.closeByte := by
    simpa [Scope.isOpenAt] using hopen
  obtain ⟨hpos, hbrace⟩ := h.opened s hmem hfile
  have hmatch : ∀ j ∈ m.matchingBrace (s.openByte - 1), offset ≤ j := by
    intro j hj
    rcases h.closed s hmem hfile with hclosed | hclosed
    · rw [hclosed] at hj
      exact hclose.trans (Option.some.inj hj).le
    · rw [hclosed] at hj
      cases hj
  exact List.mem_map.2 ⟨s.openByte - 1, Mask.mem_openBraces hbrace (by omega) hmatch, by omega⟩

theorem nodup_bracedAt (offset : Nat) : ((o.bracedAt offset).map (·.openByte)).Nodup := by
  refine List.pairwise_map.2 (h.distinct.sublist ?_)
  rw [bracedAt, ← List.filter_filter]
  exact List.filter_sublist

/-- The scopes open at an offset hold no more braces than are open there. -/
theorem scopeBraces_le (offset : Nat) :
    (o.contextAt offset).scopeBraces ≤ m.braceDepth offset := by
  have hsubset : (o.bracedAt offset).map (·.openByte) ⊆ (m.openBraces offset).map (· + 1) := by
    intro b hb
    obtain ⟨s, hs, rfl⟩ := List.mem_map.1 hb
    exact h.mem_openBraces hs
  have hle := (List.subperm_of_subset (h.nodup_bracedAt offset) hsubset).length_le
  rwa [List.length_map, List.length_map, Mask.length_openBraces, ← scopeBraces_contextAt] at hle

end Fits

end Outline

namespace Chunk

open Bytes

/-- The chunk stands between two depths of its file, opens the first in its prelude and closes the
second behind its content. -/
structure Balanced (source : Bytes) (mask : Mask) (c : Chunk) : Prop where
  openedBraces_eq : c.context.openedBraces = mask.braceDepth (c.offsetIn source)
  prelude_opens : (ofString c.context.prelude).count Byte.openBrace = c.context.openedBraces
  prelude_closes : (ofString c.context.prelude).count Byte.closeBrace = 0
  closingBraces_eq : c.closingBraces =
    mask.braceDepth (c.offsetIn source + c.content.length)
  /-- In front of the closing line as many braces are open as it closes. -/
  reaches : (ofString c.context.prelude ++
      mask.shown.slice (c.offsetIn source) (c.offsetIn source + c.content.length)).foldl
        Mask.nest 0 = c.closingBraces
  ends : (ofString c.context.prelude ++
      mask.shown.slice (c.offsetIn source) (c.offsetIn source + c.content.length) ++
        closing (ofString c.context.prelude ++ c.content) c.closingBraces).foldl Mask.nest 0 = 0

theorem foldl_nest_closing (text : Bytes) (braces depth : Nat) :
    (closing text braces).foldl Mask.nest depth = depth - braces := by
  have hnewline (depth : Nat) : Mask.nest depth Byte.newline = depth := rfl
  unfold closing
  split
  case isTrue hzero => rw [hzero]; rfl
  case isFalse =>
    rw [List.foldl_append, List.foldl_append]
    split
    · rw [List.foldl_nil, Mask.foldl_nest_replicate_closeBrace]
      exact hnewline _
    · rw [List.foldl_cons, List.foldl_nil, hnewline, Mask.foldl_nest_replicate_closeBrace]
      exact hnewline _

theorem Placed.balanced {source : Bytes} {outline : Outline} {mask : Mask} {front back : Bytes}
    {c : Chunk} (hplaced : Placed source outline mask front back c) (hfits : outline.Fits mask) :
    c.Balanced source mask := by
  have hopenless : ∀ f ∈ c.context.frames, f.Lacks '\x7b' := by
    intro f hf
    obtain ⟨s, hs, pending, rfl⟩ := hplaced.exists_scope hf
    exact hfits.openless s hs
  have hcloseless : ∀ f ∈ c.context.frames, f.Lacks '\x7d' := by
    intro f hf
    obtain ⟨s, hs, pending, rfl⟩ := hplaced.exists_scope hf
    exact hfits.closeless s hs
  have hfile : ∀ f ∈ c.context.frames, f.fileScoped = true → f.kind = .nameSpace := by
    intro f hf
    obtain ⟨s, hs, pending, rfl⟩ := hplaced.exists_scope hf
    exact hfits.fileScoped s hs
  have hscopes : c.context.scopeBraces = (outline.contextAt front.length).scopeBraces := by
    rw [Context.scopeBraces, hplaced.frames_eq, Context.scopeBraces]
  have hopened : c.context.openedBraces = mask.braceDepth front.length := by
    have := hfits.scopeBraces_le front.length
    rw [Context.openedBraces, hscopes, hplaced.openBlocks_eq]
    omega
  have hclosing : c.closingBraces = mask.braceDepth (front.length + c.content.length) := by
    rw [hplaced.closingBraces_eq, hopened, Nat.add_sub_cancel_left]
  have hcount := Context.count_openBrace_prelude hopenless hfile
  have hclose := Context.closeBrace_not_mem_prelude hcloseless
  have hreaches : (ofString c.context.prelude ++
      mask.shown.slice front.length (front.length + c.content.length)).foldl Mask.nest 0 =
        c.closingBraces := by
    rw [List.foldl_append, Mask.foldl_nest_of_not_mem hclose, Nat.zero_add, hcount, hopened,
      Mask.foldl_nest_slice mask (Nat.le_add_right _ _), hclosing]
  rw [← hplaced.offsetIn_eq] at hopened hclosing hreaches
  constructor
  case openedBraces_eq => exact hopened
  case prelude_opens => exact hcount
  case prelude_closes => exact List.count_eq_zero.2 hclose
  case closingBraces_eq => exact hclosing
  case reaches => exact hreaches
  case ends => rw [List.foldl_append, hreaches, foldl_nest_closing, Nat.sub_self]

/-- Where the outline fits the mask, no more braces are taken up by scopes than are open, and the
braces of every wrapped chunk come out even. -/
theorem split_balanced (settings : Settings.Chunking) (source : Bytes) (boundaries : List Nat)
    {outline : Outline} {mask : Mask} (hfits : outline.Fits mask) :
    (∀ offset, (outline.contextAt offset).scopeBraces ≤ mask.braceDepth offset) ∧
      ∀ c ∈ split settings source boundaries outline mask, c.Balanced source mask := by
  refine ⟨hfits.scopeBraces_le, fun c hc => ?_⟩
  obtain ⟨front, back, hplaced⟩ := exists_placed_of_mem_split hc
  exact hplaced.balanced hfits

/-- In a file-scoped namespace, a class and its method that are never closed, with a block in it. -/
def unclosedClass : Bytes :=
  ofString "namespace N;\nclass C\n\x7b\nvoid M()\n\x7b\nif (a) \x7b\nb();\n\x7d\n"

/-- The outline of `unclosedClass`. -/
def unclosedOutline : Outline where
  scopes := [
    { name := "N", qualifiedName := "N", kind := .nameSpace, keyword := "namespace"
      fileScoped := true, headerLine := 1, startLine := 1, endLine := 8
      openByte := 11, closeByte := 50, startByte := 0 },
    { name := "C", qualifiedName := "N.C", kind := .type, keyword := "class"
      fileScoped := false, headerLine := 2, startLine := 2, endLine := 8
      openByte := 22, closeByte := 49, startByte := 13 },
    { name := "M", qualifiedName := "N.C.M", kind := .member, keyword := "method"
      fileScoped := false, headerLine := 4, startLine := 4, endLine := 8
      openByte := 33, closeByte := 49, startByte := 23 }]

/-- Cut inside the block, the text behind it opens the class, the method and the block again, and
closes the two that stay open. -/
theorem split_balanced_unclosedClass :
    unclosedOutline.Fits (.ofSource unclosedClass) ∧
      (∀ offset, (unclosedOutline.contextAt offset).scopeBraces ≤
        (Mask.ofSource unclosedClass).braceDepth offset) ∧
      ∃ c ∈ split { overlapLines := 0 } unclosedClass [43] unclosedOutline
          (.ofSource unclosedClass),
        c.context.prelude = "namespace N; class C \x7b void M() \x7b \x7b\n" ∧
          c.closingBraces = 2 ∧ c.Balanced unclosedClass (.ofSource unclosedClass) := by
  have hfits : unclosedOutline.Fits (.ofSource unclosedClass) := by decide +kernel
  obtain ⟨c, hc, hprelude, hclosing⟩ :
      ∃ c ∈ split { overlapLines := 0 } unclosedClass [43] unclosedOutline
          (.ofSource unclosedClass),
        c.context.prelude = "namespace N; class C \x7b void M() \x7b \x7b\n" ∧
          c.closingBraces = 2 := by
    decide +kernel
  obtain ⟨hscopes, hbalanced⟩ := split_balanced { overlapLines := 0 } unclosedClass [43] hfits
  exact ⟨hfits, hscopes, c, hc, hprelude, hclosing, hbalanced c hc⟩

end Chunk

end SymbolAtlas
