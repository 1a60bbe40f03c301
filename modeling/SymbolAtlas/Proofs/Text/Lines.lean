import Mathlib.Tactic
import SymbolAtlas.Chunk.Split

/-!
# The lines of a text

`Bytes.lines` takes a text apart into its lines, each with the newline that ends it. It is the
measure by which the line arithmetic of chunks is judged:

* the lines put together are the text (`flatten_lines`), and any run of lines, taken as a text of
  its own, has exactly these lines (`lines_flatten_take`, `lines_flatten_drop`);
* the edges that chunks are cut along are the sums of line lengths (`lineEdges_eq_scanl`), so that
  slicing at two edges gives whole lines (`slice_edges`);
* counting the edges up to an offset gives the row of the offset (`countP_lineEdges`).
-/

namespace SymbolAtlas

namespace Bytes

/-- The lines of a text, each with the newline that ends it. -/
def lines : Bytes → List Bytes
  | [] => []
  | b :: rest =>
    if b = Byte.newline then [b] :: lines rest
    else
      match lines rest with
      | [] => [[b]]
      | line :: more => (b :: line) :: more

@[simp] theorem lines_nil : lines [] = [] := rfl

@[simp] theorem lines_newline (rest : Bytes) :
    lines (Byte.newline :: rest) = [Byte.newline] :: lines rest := by
  simp [lines]

theorem lines_cons_of_ne {b : Byte} (hb : b ≠ Byte.newline) (rest : Bytes) :
    lines (b :: rest) = (b :: (lines rest).headD []) :: (lines rest).tail := by
  rw [lines, if_neg hb]
  cases lines rest <;> rfl

theorem lines_ne_nil {s : Bytes} (hs : s ≠ []) : lines s ≠ [] := by
  cases s with
  | nil => exact absurd rfl hs
  | cons b rest =>
    by_cases hb : b = Byte.newline
    · subst hb; simp
    · simp [lines_cons_of_ne hb]

/-- The lines put together are the text. -/
@[simp] theorem flatten_lines (s : Bytes) : (lines s).flatten = s := by
  induction s with
  | nil => rfl
  | cons b rest ih =>
    by_cases hb : b = Byte.newline
    · subst hb; simp [ih]
    · rw [lines_cons_of_ne hb]
      cases hl : lines rest with
      | nil => rw [hl] at ih; simpa using ih
      | cons line more => rw [hl] at ih; simpa using ih

/-! ### Runs of lines -/

/-- The first lines of a text, as a text of their own, have just these lines. -/
theorem lines_flatten_take (s : Bytes) (n : Nat) :
    lines ((lines s).take n).flatten = (lines s).take n := by
  induction s generalizing n with
  | nil => simp
  | cons b rest ih =>
    cases n with
    | zero => simp
    | succ n =>
      by_cases hb : b = Byte.newline
      · subst hb; simp [ih]
      · rw [lines_cons_of_ne hb]
        cases hl : lines rest with
        | nil => simp [lines_cons_of_ne hb]
        | cons line more =>
          have h := ih (n + 1)
          rw [hl, List.take_succ_cons, List.flatten_cons] at h
          simp [lines_cons_of_ne hb, h]

theorem lines_flatten_tail (s : Bytes) : lines (lines s).tail.flatten = (lines s).tail := by
  induction s with
  | nil => rfl
  | cons b rest ih =>
    by_cases hb : b = Byte.newline
    · subst hb; simp
    · rw [lines_cons_of_ne hb, List.tail_cons, ih]

/-- What is left of a text after its first lines has just the other lines. -/
theorem lines_flatten_drop (s : Bytes) (n : Nat) :
    lines ((lines s).drop n).flatten = (lines s).drop n := by
  induction n with
  | zero => simp
  | succ n ih =>
    have h := lines_flatten_tail ((lines s).drop n).flatten
    rwa [ih, List.tail_drop] at h

end Bytes

namespace Division

open Bytes

/-! ### Edges -/

@[simp] theorem afterNewlines_nil (base : Nat) : afterNewlines base [] = [] := rfl

theorem afterNewlines_cons (base : Nat) (b : Byte) (rest : Bytes) :
    afterNewlines base (b :: rest) =
      if b = Byte.newline then (base + 1) :: afterNewlines (base + 1) rest
      else afterNewlines (base + 1) rest := by
  by_cases hb : b = Byte.newline <;> simp [afterNewlines, hb]

/-- The edges of a text that begins at offset `base`. -/
def edgesFrom (base : Nat) (s : Bytes) : List Nat :=
  let edges := base :: afterNewlines base s
  if edges.getLast? = some (base + s.length) then edges else edges ++ [base + s.length]

theorem lineEdges_eq_edgesFrom (s : Bytes) : lineEdges s = edgesFrom 0 s := by
  simp [lineEdges, edgesFrom]

theorem edgesFrom_newline (base : Nat) (rest : Bytes) :
    edgesFrom base (Byte.newline :: rest) = base :: edgesFrom (base + 1) rest := by
  have hlen : base + (rest.length + 1) = base + 1 + rest.length := by omega
  simp only [edgesFrom, afterNewlines_cons, if_true, List.length_cons, List.getLast?_cons_cons,
    hlen]
  split <;> rfl

theorem edgesFrom_of_ne (base : Nat) {b : Byte} (hb : b ≠ Byte.newline) {rest : Bytes}
    (hrest : rest ≠ []) :
    edgesFrom base (b :: rest) = base :: (edgesFrom (base + 1) rest).tail := by
  have hlen : base + (rest.length + 1) = base + 1 + rest.length := by omega
  simp only [edgesFrom, afterNewlines_cons, if_neg hb, List.length_cons, hlen]
  cases hnl : afterNewlines (base + 1) rest with
  | nil =>
    -- No newline follows: the only other edge is the end of the text, which lies past both starts.
    have hpos : 0 < rest.length := List.length_pos_of_ne_nil hrest
    rw [if_neg (by simp; omega), if_neg (by simp; omega)]
    rfl
  | cons e es =>
    simp only [List.getLast?_cons_cons]
    split <;> rfl

/-- The edges of a text are the sums of the lengths of its first lines. -/
theorem edgesFrom_eq_scanl (base : Nat) (s : Bytes) :
    edgesFrom base s = (lines s).scanl (fun n line => n + line.length) base := by
  induction s generalizing base with
  | nil => simp [edgesFrom]
  | cons b rest ih =>
    by_cases hb : b = Byte.newline
    · subst hb
      rw [edgesFrom_newline, ih, lines_newline, List.scanl_cons]
      rfl
    · by_cases hrest : rest = []
      · subst hrest
        simp [edgesFrom, afterNewlines_cons, hb, lines_cons_of_ne hb]
      · obtain ⟨line, more, hl⟩ := List.exists_cons_of_ne_nil (lines_ne_nil hrest)
        have hsum : base + (line.length + 1) = base + 1 + line.length := by omega
        rw [edgesFrom_of_ne base hb hrest, ih, lines_cons_of_ne hb, hl]
        simp [hsum]

theorem lineEdges_eq_scanl (s : Bytes) :
    lineEdges s = (lines s).scanl (fun n line => n + line.length) 0 := by
  rw [lineEdges_eq_edgesFrom, edgesFrom_eq_scanl]

@[simp] theorem length_lineEdges (s : Bytes) : (lineEdges s).length = (lines s).length + 1 := by
  rw [lineEdges_eq_scanl, List.length_scanl]

theorem foldl_length_eq (base : Nat) (ls : List Bytes) :
    ls.foldl (fun n line => n + line.length) base = base + ls.flatten.length := by
  induction ls generalizing base with
  | nil => simp
  | cons line more ih =>
    rw [List.foldl_cons, ih, List.flatten_cons, List.length_append, Nat.add_assoc]

/-- The edge in front of line `k` lies behind the first `k` lines. -/
theorem getD_lineEdges {s : Bytes} {k : Nat} (hk : k ≤ (lines s).length) :
    (lineEdges s).toArray.getD k 0 = ((lines s).take k).flatten.length := by
  have hlt : k < (lines s).length + 1 := by omega
  rw [Array.getD_eq_getD_getElem?, List.getElem?_toArray, lineEdges_eq_scanl, List.getElem?_scanl,
    if_pos (by simpa using hlt), Option.getD_some, foldl_length_eq, Nat.zero_add]

theorem flatten_take_eq_append (ls : List Bytes) {first last : Nat} (h : first ≤ last) :
    (ls.take last).flatten =
      (ls.take first).flatten ++ ((ls.take last).drop first).flatten := by
  have htake : (ls.take last).take first = ls.take first := by
    rw [List.take_take, Nat.min_eq_left h]
  rw [← htake, ← List.flatten_append, List.take_append_drop]

theorem bytesBetween_lineEdges {s : Bytes} {first last : Nat} (h : first ≤ last)
    (hlast : last ≤ s.lines.length) :
    bytesBetween (lineEdges s).toArray first last =
      ((s.lines.take last).drop first).flatten.length := by
  rw [bytesBetween, getD_lineEdges hlast, getD_lineEdges (h.trans hlast),
    flatten_take_eq_append _ h, List.length_append, Nat.add_sub_cancel_left]

/-- Pieces put together, parted in front of piece `first` and in front of piece `last`. -/
theorem flatten_eq_append (ls : List Bytes) {first last : Nat} (h : first ≤ last) :
    ls.flatten = (ls.take first).flatten ++
      (((ls.take last).drop first).flatten ++ (ls.drop last).flatten) := by
  rw [← List.append_assoc, ← flatten_take_eq_append ls h, ← List.flatten_append,
    List.take_append_drop]

/-- Cutting at sums of piece lengths gives whole pieces. -/
theorem slice_flatten (ls : List Bytes) {first last : Nat} (h : first ≤ last) :
    Bytes.slice ls.flatten (ls.take first).flatten.length (ls.take last).flatten.length =
      ((ls.take last).drop first).flatten := by
  have hlen : (ls.take last).flatten.length - (ls.take first).flatten.length =
      ((ls.take last).drop first).flatten.length := by
    rw [flatten_take_eq_append ls h, List.length_append, Nat.add_sub_cancel_left]
  rw [Bytes.slice, hlen, flatten_eq_append ls h, List.drop_left, List.take_left]

/-- Between two edges stand whole lines. -/
theorem slice_edges {s : Bytes} {first last : Nat} (h : first ≤ last)
    (hlast : last ≤ (lines s).length) :
    s.slice ((lineEdges s).toArray.getD first 0) ((lineEdges s).toArray.getD last 0) =
      (((lines s).take last).drop first).flatten := by
  have hslice := slice_flatten (lines s) h
  rwa [flatten_lines, ← getD_lineEdges (h.trans hlast), ← getD_lineEdges hlast] at hslice

/-! ### Rows -/

theorem countP_afterNewlines (base b : Nat) (s : Bytes) :
    (afterNewlines base s).countP (· ≤ base + b) = (s.take b).count Byte.newline := by
  induction s generalizing base b with
  | nil => simp
  | cons c rest ih =>
    cases b with
    | zero =>
      -- Every edge past a newline lies behind the text's beginning.
      rw [List.countP_eq_zero.2 ?_]
      · rfl
      · intro e he
        have : base + 1 ≤ e := by
          simp only [afterNewlines, List.mem_filterMap] at he
          obtain ⟨⟨x, i⟩, hx, hi⟩ := he
          have := List.le_snd_of_mem_zipIdx hx
          simp only [Option.ite_none_right_eq_some, Option.some.injEq] at hi
          omega
        simp; omega
    | succ b =>
      have hsum : base + (b + 1) = base + 1 + b := by omega
      rw [afterNewlines_cons, List.take_succ_cons, hsum]
      by_cases hc : c = Byte.newline
      · subst hc
        rw [if_pos rfl, List.countP_cons_of_pos (by simp), ih, List.count_cons_self]
      · rw [if_neg hc, ih, List.count_cons_of_ne hc]

/-- The edges up to an offset inside the text are one more than the newlines before it. -/
theorem countP_lineEdges {s : Bytes} {b : Nat} (hb : b < s.length) :
    (lineEdges s).countP (· ≤ b) = s.rowAt b + 1 := by
  have hnl := countP_afterNewlines 0 b s
  simp only [Nat.zero_add] at hnl
  simp only [lineEdges]
  split
  · rw [List.countP_cons_of_pos (by simp), hnl, Bytes.rowAt]
  · rw [List.countP_append, List.countP_cons_of_pos (by simp), hnl, Bytes.rowAt]
    simp [hb]

/-- An offset inside the text lies on one of its lines. -/
theorem rowAt_lt_length_lines {s : Bytes} {b : Nat} (hb : b < s.length) :
    s.rowAt b < (lines s).length := by
  induction s generalizing b with
  | nil => simp at hb
  | cons c rest ih =>
    cases b with
    | zero =>
      have := List.length_pos_of_ne_nil (lines_ne_nil (List.cons_ne_nil c rest))
      simpa [Bytes.rowAt] using this
    | succ b =>
      have h := ih (b := b) (by simpa using hb)
      by_cases hc : c = Byte.newline
      · subst hc
        simpa [Bytes.rowAt] using h
      · simp only [Bytes.rowAt, List.take_succ_cons] at h ⊢
        rw [List.count_cons_of_ne hc, lines_cons_of_ne hc, List.length_cons, List.length_tail]
        omega

/-- All lines but the last end in a newline and hold no other. -/
theorem count_newline_take_lines {s : Bytes} {k : Nat} (hk : k < (lines s).length) :
    ((lines s).take k).flatten.count Byte.newline = k := by
  induction s generalizing k with
  | nil => simp at hk
  | cons b rest ih =>
    cases k with
    | zero => rfl
    | succ k =>
      by_cases hb : b = Byte.newline
      · subst hb
        rw [lines_newline] at hk ⊢
        rw [List.take_succ_cons, List.flatten_cons, List.count_append, ih (by simpa using hk)]
        simp [Nat.add_comm]
      · rw [lines_cons_of_ne hb] at hk ⊢
        cases hl : lines rest with
        | nil => simp [hl] at hk
        | cons line more =>
          have h := ih (k := k + 1) (by simpa [hl] using hk)
          rw [hl, List.take_succ_cons, List.flatten_cons] at h
          simpa [List.count_cons_of_ne hb] using h

/-- All lines but the last end in a newline. -/
theorem getLast?_take_lines {s : Bytes} {k : Nat} (hpos : 0 < k) (hk : k < (lines s).length) :
    ((lines s).take k).flatten.getLast? = some Byte.newline := by
  induction s generalizing k with
  | nil => simp at hk
  | cons b rest ih =>
    obtain ⟨k, rfl⟩ := Nat.exists_eq_add_of_lt hpos
    rw [Nat.zero_add] at hk ⊢
    by_cases hb : b = Byte.newline
    · subst hb
      rw [lines_newline] at hk ⊢
      rw [List.take_succ_cons, List.flatten_cons, List.singleton_append, List.getLast?_cons]
      rcases Nat.eq_zero_or_pos k with rfl | hpos
      · rfl
      · rw [ih hpos (by simpa using hk)]
        rfl
    · rw [lines_cons_of_ne hb] at hk ⊢
      cases hl : lines rest with
      | nil => simp [hl] at hk
      | cons line more =>
        have h := ih (k := k + 1) (Nat.succ_pos k) (by simpa [hl] using hk)
        rw [hl, List.take_succ_cons, List.flatten_cons] at h
        simp only [List.headD_cons, List.tail_cons, List.take_succ_cons, List.flatten_cons,
          List.cons_append, List.getLast?_cons, h, Option.getD_some]

/-- The byte in front of a line other than the first is a newline. -/
theorem getElem?_pred_edge {s : Bytes} {k : Nat} (hpos : 0 < k) (hk : k < (lines s).length) :
    0 < ((lines s).take k).flatten.length ∧
      s[((lines s).take k).flatten.length - 1]? = some Byte.newline := by
  have hlast := getLast?_take_lines hpos hk
  have hne : ((lines s).take k).flatten ≠ [] := by
    intro hnil
    rw [hnil] at hlast
    cases hlast
  have hlength := List.length_pos_of_ne_nil hne
  refine ⟨hlength, ?_⟩
  rw [List.getLast?_eq_getElem?] at hlast
  have hs : s = ((lines s).take k).flatten ++ ((lines s).drop k).flatten := by
    rw [← List.flatten_append, List.take_append_drop, flatten_lines]
  calc s[((lines s).take k).flatten.length - 1]?
    _ = (((lines s).take k).flatten ++ ((lines s).drop k).flatten)[
          ((lines s).take k).flatten.length - 1]? := by rw [← hs]
    _ = some Byte.newline := by rw [List.getElem?_append_left (by omega), hlast]

/-- The row behind a newline begins right behind it. -/
theorem length_take_rowAt {s : Bytes} {b : Nat} (hb : s[b]? = some Byte.newline) :
    ((lines s).take (s.rowAt (b + 1))).flatten.length = b + 1 := by
  induction s generalizing b with
  | nil => simp at hb
  | cons c rest ih =>
    cases b with
    | zero =>
      obtain rfl : c = Byte.newline := by simpa using hb
      simp [Bytes.rowAt]
    | succ b =>
      have h := ih (by simpa using hb)
      by_cases hc : c = Byte.newline
      · subst hc
        simpa [Bytes.rowAt] using h
      · have hrow : Bytes.rowAt (c :: rest) (b + 1 + 1) = Bytes.rowAt rest (b + 1) := by
          rw [Bytes.rowAt, List.take_succ_cons, List.count_cons_of_ne hc]
          rfl
        rw [hrow, lines_cons_of_ne hc]
        -- The text behind `c` has a line, which `c` is put in front of.
        cases hl : lines rest with
        | nil => simp [hl] at h
        | cons line more =>
          rw [hl] at h
          cases hk : Bytes.rowAt rest (b + 1) with
          | zero => simp [hk] at h
          | succ k =>
            rw [hk, List.take_succ_cons, List.flatten_cons, List.length_append] at h
            simp only [List.headD_cons, List.tail_cons, List.take_succ_cons, List.flatten_cons,
              List.length_append, List.length_cons]
            omega

theorem mem_afterNewlines {base e : Nat} {s : Bytes} :
    e ∈ afterNewlines base s ↔ base + 1 ≤ e ∧ s[e - (base + 1)]? = some Byte.newline := by
  rw [← List.mk_mem_zipIdx_iff_le_and_getElem?_sub]
  simp only [afterNewlines, List.mem_filterMap, Option.ite_none_right_eq_some, beq_iff_eq,
    Option.some.injEq]
  constructor
  · rintro ⟨⟨c, i⟩, hmem, rfl, rfl⟩
    exact hmem
  · exact fun hmem => ⟨_, hmem, rfl, rfl⟩

theorem pairwise_afterNewlines (base : Nat) (s : Bytes) :
    (afterNewlines base s).Pairwise (· < ·) := by
  induction s generalizing base with
  | nil => exact .nil
  | cons b rest ih =>
    rw [afterNewlines_cons]
    split
    · refine .cons (fun e he => ?_) (ih (base + 1))
      exact (mem_afterNewlines.1 he).1
    · exact ih (base + 1)

theorem le_length_of_mem_lineEdges {s : Bytes} {e : Nat} (he : e ∈ lineEdges s) : e ≤ s.length := by
  have hedge : e ∈ 0 :: afterNewlines 0 s → e ≤ s.length := by
    intro he
    rcases List.mem_cons.1 he with rfl | he
    · exact Nat.zero_le _
    · have hlt := (List.getElem?_eq_some_iff.1 (mem_afterNewlines.1 he).2).1
      omega
  simp only [lineEdges] at he
  split at he
  · exact hedge he
  · rcases List.mem_append.1 he with he | he
    · exact hedge he
    · exact (List.mem_singleton.1 he).le

/-- A cut that falls on a line of the text falls inside the text. -/
theorem lt_length_of_countP_lt {s : Bytes} {b : Nat}
    (h : (lineEdges s).countP (· ≤ b) - 1 < (lines s).length) : b < s.length := by
  by_contra hge
  have hall : ∀ e ∈ lineEdges s, decide (e ≤ b) = true := fun e he =>
    decide_eq_true ((le_length_of_mem_lineEdges he).trans (Nat.not_lt.1 hge))
  rw [List.countP_eq_length.2 hall, length_lineEdges] at h
  omega

/-- The rows of a text that stands between others go on from the newlines in front of it. -/
theorem rowAt_between (front s back : Bytes) {p : Nat} (hp : p ≤ s.length) :
    (front ++ (s ++ back)).rowAt (front.length + p) =
      front.count Byte.newline + s.rowAt p := by
  rw [Bytes.rowAt, List.take_length_add_append, List.take_append_of_le_length hp, List.count_append,
    Bytes.rowAt]

end Division

end SymbolAtlas
