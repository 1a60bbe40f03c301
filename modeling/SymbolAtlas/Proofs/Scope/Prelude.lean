import Mathlib.Tactic
import SymbolAtlas.Proofs.Text.Utf8
import SymbolAtlas.Scope.Basic

/-!
# What a prelude holds

The text in front of a chunk is written from the names and keywords of the scopes around it. How
often a newline or a brace stands in it is counted here, for every mixture of open, pending and
braceless scopes and of plain blocks, as long as the names and keywords are free of the character
counted (`Context.count_prelude`):

* a prelude that is not empty is one line (`count_newline_prelude`);
* it opens as many braces as the context says and closes none (`count_openBrace_prelude`,
  `closeBrace_not_mem_prelude`), provided that only namespaces do without braces.
-/

namespace SymbolAtlas

theorem count_intercalate {a : Char} {separator : String} (ha : a ∉ separator.toList)
    (parts : List String) :
    (separator.intercalate parts).toList.count a = (parts.map (·.toList.count a)).sum := by
  induction parts with
  | nil => simp
  | cons part parts ih =>
    cases parts with
    | nil => simp
    | cons next parts =>
      rw [String.intercalate_cons_cons, String.toList_append, String.toList_append,
        List.count_append, List.count_append, List.count_eq_zero.2 ha, ih, Nat.add_zero,
        List.map_cons (l := next :: parts), List.sum_cons]

/-- The characters that the nesting and the lines of a text are read from. -/
def structureMarks : List Char := ['\n', '\x7b', '\x7d']

namespace Frame

/-- The character is in neither the name nor the keyword. -/
def Lacks (f : Frame) (a : Char) : Prop := a ∉ f.name.toList ∧ a ∉ f.keyword.toList

/-- The number of braces that the opener writes. -/
def writtenBraces (f : Frame) : Nat := if f.isBraceless || f.pending then 0 else 1

theorem writtenBraces_eq_braces {f : Frame} (h : f.fileScoped = true → f.kind = .nameSpace) :
    f.writtenBraces = f.braces := by
  unfold writtenBraces braces isBraceless
  cases hfile : f.fileScoped with
  | false => simp
  | true => simp [h hfile]

theorem not_mem_header {a : Char} (ha : a ∈ structureMarks) {f : Frame} (h : f.Lacks a) :
    a ∉ f.header.toList := by
  obtain ⟨hname, hkeyword⟩ := h
  simp only [structureMarks, List.mem_cons, List.not_mem_nil, or_false] at ha
  unfold header
  split
  · rcases ha with rfl | rfl | rfl <;> simp [hname]
  · rcases ha with rfl | rfl | rfl <;> simp [hname, hkeyword]
  · split <;> rcases ha with rfl | rfl | rfl <;> simp [hname]

/-- Past its header, an opener holds at most the opening brace. -/
theorem count_opener {a : Char} (ha : a ∈ structureMarks) {f : Frame} (h : f.Lacks a) :
    f.opener.toList.count a = f.writtenBraces * ['\x7b'].count a := by
  have hheader : f.header.toList.count a = 0 := List.count_eq_zero.2 (not_mem_header ha h)
  simp only [structureMarks, List.mem_cons, List.not_mem_nil, or_false] at ha
  unfold opener writtenBraces
  cases hbraceless : f.isBraceless with
  | true => rcases ha with rfl | rfl | rfl <;> simp [hheader]
  | false =>
    cases hpending : f.pending with
    | true => simp [hheader]
    | false => rcases ha with rfl | rfl | rfl <;> simp [hheader]

end Frame

namespace Context

theorem scopeBraces_eq_sum (c : Context) : c.scopeBraces = (c.frames.map Frame.braces).sum := by
  rw [scopeBraces, List.sum_eq_foldl, List.foldl_map]

/-- A brace is written for every block, whether or not the first of them has a header. -/
theorem sum_count_blockOpeners {a : Char} (ha : a ∈ structureMarks) (c : Context) :
    (c.blockOpeners.map (·.toList.count a)).sum = c.openBlocks * ['\x7b'].count a := by
  have hmethod : ("void " ++ blockMethod ++ "() \x7b").toList.count a = ['\x7b'].count a := by
    simp only [structureMarks, List.mem_cons, List.not_mem_nil, or_false] at ha
    rcases ha with rfl | rfl | rfl <;> decide
  unfold blockOpeners
  cases c.openBlocks with
  | zero => simp
  | succ blocks =>
    have hblock : "\x7b".toList.count a = ['\x7b'].count a := rfl
    simp only [List.map_cons, List.sum_cons, List.map_replicate, List.sum_replicate, apply_ite,
      hmethod, hblock, ite_self, smul_eq_mul]
    ring

/-- A prelude holds the braces of its openers, and one newline unless it is empty. -/
theorem count_prelude {a : Char} (ha : a ∈ structureMarks) {c : Context}
    (h : ∀ f ∈ c.frames, f.Lacks a) :
    c.prelude.toList.count a =
      if c.isEmpty then 0
      else ((c.frames.map Frame.writtenBraces).sum + c.openBlocks) * ['\x7b'].count a +
        ['\n'].count a := by
  have hspace : a ∉ " ".toList := by
    simp only [structureMarks, List.mem_cons, List.not_mem_nil, or_false] at ha
    rcases ha with rfl | rfl | rfl <;> decide
  have hframes : (c.frames.map fun f => f.opener.toList.count a).sum =
      (c.frames.map Frame.writtenBraces).sum * ['\x7b'].count a := by
    rw [← List.sum_map_mul_right]
    exact congrArg List.sum (List.map_congr_left fun f hf => Frame.count_opener ha (h f hf))
  unfold prelude
  split
  · rfl
  · rw [String.toList_append, List.count_append, count_intercalate hspace, List.map_append,
      List.sum_append, List.map_map, sum_count_blockOpeners ha, Nat.add_mul]
    exact congrArg (· + _ + _) hframes

theorem prelude_of_isEmpty {c : Context} (h : c.isEmpty = true) :
    Bytes.ofString c.prelude = [] := by
  rw [prelude, if_pos h]
  rfl

/-- A prelude that is not empty is one line. -/
theorem count_newline_prelude {c : Context} (h : ∀ f ∈ c.frames, f.Lacks '\n') :
    (Bytes.ofString c.prelude).count Byte.newline =
      if (Bytes.ofString c.prelude).isEmpty then 0 else 1 := by
  cases hempty : c.isEmpty with
  | true =>
    rw [prelude_of_isEmpty hempty]
    rfl
  | false =>
    have hone : (Bytes.ofString c.prelude).count Byte.newline = 1 := by
      refine (Utf8.count_ofString (a := '\n') (by decide) c.prelude).trans ?_
      rw [count_prelude (by decide) h, hempty]
      rfl
    have hne : Bytes.ofString c.prelude ≠ [] := fun hnil => by simp [hnil] at hone
    rw [hone, if_neg (by simpa using hne)]

/-- A prelude opens the braces of the scopes and blocks that are open. -/
theorem count_openBrace_prelude {c : Context} (h : ∀ f ∈ c.frames, f.Lacks '\x7b')
    (hfile : ∀ f ∈ c.frames, f.fileScoped = true → f.kind = .nameSpace) :
    (Bytes.ofString c.prelude).count Byte.openBrace = c.openedBraces := by
  have hbraces : c.frames.map Frame.writtenBraces = c.frames.map Frame.braces :=
    List.map_congr_left fun f hf => Frame.writtenBraces_eq_braces (hfile f hf)
  refine (Utf8.count_ofString (a := '\x7b') (by decide) c.prelude).trans ?_
  rw [count_prelude (by decide) h, hbraces, ← scopeBraces_eq_sum, ← openedBraces]
  cases hempty : c.isEmpty with
  | true =>
    obtain ⟨hframes, hblocks⟩ := Bool.and_eq_true_iff.1 hempty
    rw [openedBraces, scopeBraces, List.isEmpty_iff.1 hframes, beq_iff_eq.1 hblocks]
    rfl
  | false => simp

theorem closeBrace_not_mem_prelude {c : Context} (h : ∀ f ∈ c.frames, f.Lacks '\x7d') :
    Byte.closeBrace ∉ Bytes.ofString c.prelude := by
  refine List.count_eq_zero.1 ((Utf8.count_ofString (a := '\x7d') (by decide) c.prelude).trans ?_)
  rw [count_prelude (by decide) h]
  split <;> rfl

end Context

end SymbolAtlas
