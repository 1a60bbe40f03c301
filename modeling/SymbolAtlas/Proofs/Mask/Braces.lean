import Mathlib.Tactic
import SymbolAtlas.Mask.Basic

/-!
# The braces open at a place

`Mask.braceDepth` only counts. Here the braces it counts are listed: `Mask.openBraces` holds the
offsets of the braces open at a place, innermost first, as a reader with a stack would keep them.

* The list has as many members as the depth says (`length_openBraces`).
* A brace stays in it, with all those open around it, until the brace that matches it
  (`suffix_openBraces`). So different braces that are not yet matched are counted separately.

The last part says what a stretch of text does to the depth, from whatever depth it is entered.
-/

namespace SymbolAtlas.Mask

@[simp] theorem nest_openBrace (depth : Nat) : nest depth Byte.openBrace = depth + 1 := rfl

@[simp] theorem nest_closeBrace (depth : Nat) : nest depth Byte.closeBrace = depth - 1 := rfl

theorem nest_of_ne {b : Byte} (hopen : b ≠ Byte.openBrace) (hclose : b ≠ Byte.closeBrace)
    (depth : Nat) : nest depth b = depth := by
  simp [nest, hopen, hclose]

/-! ### The stack of open braces -/

/-- The open braces past byte `b` at offset `i`. -/
def track (opened : List Nat) : Byte × Nat → List Nat
  | (b, i) =>
    if b == Byte.openBrace then i :: opened
    else if b == Byte.closeBrace then opened.tail
    else opened

/-- The offsets of the braces open just before offset `stop`, innermost first. -/
def openBraces (m : Mask) (stop : Nat) : List Nat :=
  (m.shown.take stop).zipIdx.foldl track []

@[simp] theorem track_openBrace (opened : List Nat) (i : Nat) :
    track opened (Byte.openBrace, i) = i :: opened := rfl

@[simp] theorem track_closeBrace (opened : List Nat) (i : Nat) :
    track opened (Byte.closeBrace, i) = opened.tail := rfl

theorem track_of_ne {b : Byte} (hopen : b ≠ Byte.openBrace) (hclose : b ≠ Byte.closeBrace)
    (opened : List Nat) (i : Nat) : track opened (b, i) = opened := by
  simp [track, hopen, hclose]

theorem length_track (opened : List Nat) (b : Byte) (i : Nat) :
    (track opened (b, i)).length = nest opened.length b := by
  by_cases hopen : b = Byte.openBrace
  · subst hopen
    simp
  · by_cases hclose : b = Byte.closeBrace
    · subst hclose
      simp
    · rw [track_of_ne hopen hclose, nest_of_ne hopen hclose]

theorem length_foldl_track (s : Bytes) (i : Nat) (opened : List Nat) :
    ((s.zipIdx i).foldl track opened).length = s.foldl nest opened.length := by
  induction s generalizing i opened with
  | nil => rfl
  | cons b s ih => rw [List.zipIdx_cons, List.foldl_cons, List.foldl_cons, ih, length_track]

/-- The depth counts the open braces. -/
theorem length_openBraces (m : Mask) (stop : Nat) :
    (m.openBraces stop).length = m.braceDepth stop :=
  length_foldl_track _ _ _

theorem closingFrom_openBrace (depth offset : Nat) (s : Bytes) :
    closingFrom depth offset (Byte.openBrace :: s) = closingFrom (depth + 1) (offset + 1) s := rfl

theorem closingFrom_of_ne {b : Byte} (hopen : b ≠ Byte.openBrace) (hclose : b ≠ Byte.closeBrace)
    (depth offset : Nat) (s : Bytes) :
    closingFrom depth offset (b :: s) = closingFrom depth (offset + 1) s := by
  rw [closingFrom, nest_of_ne hopen hclose, if_neg (by simp [hclose])]

/-- What is open below some braces stays open while the last of these is not closed. -/
theorem suffix_foldl_track (base : List Nat) (s : Bytes) (inner : List Nat) (offset taken : Nat)
    (h : ∀ j ∈ closingFrom (inner.length + 1) offset s, offset + taken ≤ j) :
    base <:+ ((s.take taken).zipIdx offset).foldl track (inner ++ base) := by
  induction s generalizing inner offset taken with
  | nil => simp
  | cons b s ih =>
    cases taken with
    | zero => simp
    | succ taken =>
      rw [List.take_succ_cons, List.zipIdx_cons, List.foldl_cons]
      by_cases hopen : b = Byte.openBrace
      · subst hopen
        rw [closingFrom_openBrace] at h
        refine ih (offset :: inner) (offset + 1) taken fun j hj => ?_
        have := h j hj
        omega
      · by_cases hclose : b = Byte.closeBrace
        · subst hclose
          cases inner with
          | nil =>
            -- The brace closes the last one, before the end of what is read.
            have := h offset rfl
            omega
          | cons i inner =>
            refine ih inner (offset + 1) taken fun j hj => ?_
            have := h j hj
            omega
        · rw [track_of_ne hopen hclose]
          rw [closingFrom_of_ne hopen hclose] at h
          refine ih inner (offset + 1) taken fun j hj => ?_
          have := h j hj
          omega

theorem drop_of_openBrace {m : Mask} {start : Nat}
    (hstart : m.shown[start]? = some Byte.openBrace) :
    m.shown.drop start = Byte.openBrace :: m.shown.drop (start + 1) := by
  obtain ⟨hlen, hget⟩ := List.getElem?_eq_some_iff.1 hstart
  rw [List.drop_eq_getElem_cons hlen, hget]

/-- An opening brace, on top of those open before it, stays open up to the brace that matches
it. -/
theorem suffix_openBraces {m : Mask} {start stop : Nat}
    (hstart : m.shown[start]? = some Byte.openBrace) (hlt : start < stop)
    (hmatch : ∀ j ∈ m.matchingBrace start, stop ≤ j) :
    (start :: m.openBraces start) <:+ m.openBraces stop := by
  obtain ⟨hlen, -⟩ := List.getElem?_eq_some_iff.1 hstart
  have hdrop := drop_of_openBrace hstart
  obtain ⟨taken, rfl⟩ : ∃ taken, stop = start + (taken + 1) := ⟨stop - start - 1, by omega⟩
  have htake : m.shown.take (start + (taken + 1)) =
      m.shown.take start ++ Byte.openBrace :: (m.shown.drop (start + 1)).take taken := by
    rw [List.take_add, hdrop, List.take_succ_cons]
  have hcount : (m.shown.take start).length = start := by simp [hlen.le]
  have hstop : m.openBraces (start + (taken + 1)) =
      (((m.shown.drop (start + 1)).take taken).zipIdx (start + 1)).foldl track
        (start :: m.openBraces start) := by
    rw [openBraces, htake, List.zipIdx_append, List.foldl_append, hcount, Nat.zero_add,
      List.zipIdx_cons, List.foldl_cons, track_openBrace]
    rfl
  rw [hstop]
  refine suffix_foldl_track (start :: m.openBraces start) _ [] (start + 1) taken fun j hj => ?_
  rw [matchingBrace, hdrop] at hmatch
  have := hmatch j hj
  omega

theorem mem_openBraces {m : Mask} {start stop : Nat}
    (hstart : m.shown[start]? = some Byte.openBrace) (hlt : start < stop)
    (hmatch : ∀ j ∈ m.matchingBrace start, stop ≤ j) : start ∈ m.openBraces stop :=
  (suffix_openBraces hstart hlt hmatch).subset List.mem_cons_self

/-! ### The depth along a text -/

@[simp] theorem braceDepth_zero (m : Mask) : m.braceDepth 0 = 0 := rfl

/-- The depth at an offset goes on from the depth at any offset before. -/
theorem foldl_nest_slice (m : Mask) {first last : Nat} (h : first ≤ last) :
    (m.shown.slice first last).foldl nest (m.braceDepth first) = m.braceDepth last := by
  obtain ⟨size, rfl⟩ := Nat.exists_eq_add_of_le h
  rw [Bytes.slice, Nat.add_sub_cancel_left, braceDepth, ← List.foldl_append, ← List.take_add,
    braceDepth]

/-- A text that closes nothing adds the braces it opens. -/
theorem foldl_nest_of_not_mem {s : Bytes} (hs : Byte.closeBrace ∉ s) (depth : Nat) :
    s.foldl nest depth = depth + s.count Byte.openBrace := by
  induction s generalizing depth with
  | nil => rfl
  | cons b s ih =>
    rw [List.mem_cons, not_or] at hs
    rw [List.foldl_cons, ih hs.2]
    by_cases hb : b = Byte.openBrace
    · subst hb
      rw [nest_openBrace, List.count_cons_self]
      omega
    · rw [nest_of_ne hb (Ne.symm hs.1), List.count_cons_of_ne hb]

theorem foldl_nest_replicate_closeBrace (count depth : Nat) :
    (List.replicate count Byte.closeBrace).foldl nest depth = depth - count := by
  induction count generalizing depth with
  | zero => rfl
  | succ count ih =>
    rw [List.replicate_succ, List.foldl_cons, nest_closeBrace, ih]
    omega

end SymbolAtlas.Mask
