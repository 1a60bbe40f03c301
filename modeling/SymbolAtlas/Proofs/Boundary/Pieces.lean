import Mathlib.Tactic
import SymbolAtlas.Proofs.Boundary.Choice

/-!
# Pieces of at most a chunk

`Cutter.cuts` covers a range with cuts. However the single cut is found, it lies behind the place it
is looked for from and at most a chunk away (`cut_bounds`), so that the search never stands still,
and all pieces are small enough (`divides_cuts`).

The search is also run in machine words, with every sum checked (`checkedCuts`). It has the same
outcome, because it is only begun while more than a chunk is left (`checkedCuts_eq`).
-/

namespace SymbolAtlas

theorem Settings.Chunking.limit_pos (settings : Settings.Chunking) : 0 < settings.limit :=
  Nat.lt_of_lt_of_le Nat.one_pos (Nat.le_max_left _ _)

namespace Cutter

/-! ### Where a cut lies -/

theorem snap_bounds (s : Bytes) {low cut : Nat} (h : low ≤ cut) :
    low ≤ snap s low cut ∧ snap s low cut ≤ cut := by
  induction cut with
  | zero => exact ⟨h, le_rfl⟩
  | succ cut ih =>
    rw [snap]
    split
    case isTrue hback =>
      simp only [Bool.and_eq_true, decide_eq_true_eq] at hback
      obtain ⟨hlow, hhigh⟩ := ih (Nat.lt_succ_iff.1 hback.1)
      exact ⟨hlow, hhigh.trans (Nat.le_succ cut)⟩
    case isFalse => exact ⟨h, le_rfl⟩

/-- The last line start up to an offset. -/
theorem of_getLast?_takeWhile {starts : List Nat} {high line : Nat}
    (h : (starts.takeWhile (· ≤ high)).getLast? = some line) : line ∈ starts ∧ line ≤ high := by
  have hmem := List.mem_of_getLast? h
  have hle := List.all_eq_true.1 (List.all_takeWhile (p := (· ≤ high))) line hmem
  exact ⟨(List.takeWhile_sublist _).subset hmem, of_decide_eq_true hle⟩

theorem forcedCut_bounds (c : Cutter) {start high : Nat} (h : start < high) :
    start < c.forcedCut start high ∧ c.forcedCut start high ≤ high := by
  have hsnap := snap_bounds c.mask.shown (Nat.succ_le_of_lt h)
  rw [forcedCut]
  split
  case h_1 line hline =>
    split
    case isTrue hlt => exact ⟨hlt, (of_getLast?_takeWhile hline).2⟩
    case isFalse => exact hsnap
  case h_2 => exact hsnap

variable {c : Cutter}

/-- While more than a chunk is left, a cut lies behind its start, at most a chunk away, and before
the limit. -/
theorem cut_bounds (hc : c.Ordered) {start limit : Nat} (h : c.settings.limit < limit - start) :
    start < c.cut start limit ∧ c.cut start limit ≤ start + c.settings.limit ∧
      c.cut start limit < limit := by
  have hpos := c.settings.limit_pos
  have hedge : c.highEdge start limit = min (start + c.settings.limit) (limit - 1) := rfl
  rcases cut_cases hc start limit with ⟨best, hbest, heq⟩ | ⟨-, heq⟩
  · obtain ⟨hlow, hhigh⟩ := hbest.inReach
    rw [heq]
    omega
  · have hlt : start < c.highEdge start limit := by omega
    have hbounds := c.forcedCut_bounds hlt
    rw [heq]
    omega

/-! ### All cuts of a range -/

/-- The cuts divide the text from `start` to `stop` into pieces of at most `limit` bytes, and there
are none if it is such a piece itself. -/
structure Divides (limit start stop : Nat) (cuts : List Nat) : Prop where
  ascending : cuts.Pairwise (· < ·)
  between : ∀ b ∈ cuts, start < b ∧ b < stop
  pieces : (start :: cuts ++ [stop]).IsChain fun a b => b - a ≤ limit
  eq_nil_iff : cuts = [] ↔ stop - start ≤ limit

theorem divides_nil {limit start stop : Nat} (h : stop - start ≤ limit) :
    Divides limit start stop [] where
  ascending := .nil
  between := by simp
  pieces := by simpa using h
  eq_nil_iff := by simpa using h

theorem Divides.cons {limit start next stop : Nat} {cuts : List Nat}
    (h : Divides limit next stop cuts) (hstart : start < next) (hstop : next < stop)
    (hpiece : next - start ≤ limit) (hlong : limit < stop - start) :
    Divides limit start stop (next :: cuts) where
  ascending := List.pairwise_cons.2 ⟨fun b hb => (h.between b hb).1, h.ascending⟩
  between b hb := by
    rcases List.mem_cons.1 hb with rfl | hb
    · exact ⟨hstart, hstop⟩
    · exact ⟨hstart.trans (h.between b hb).1, (h.between b hb).2⟩
  pieces := List.isChain_cons_cons.2 ⟨hpiece, h.pieces⟩
  eq_nil_iff := ⟨fun hnil => (List.cons_ne_nil _ _ hnil).elim, fun hle => by omega⟩

/-- The piece behind the last cut is small enough too. -/
theorem Divides.lastPiece {limit start stop : Nat} {cuts : List Nat}
    (h : Divides limit start stop cuts) : stop - cuts.getLast?.getD start ≤ limit :=
  (List.isChain_append.1 h.pieces).2.2 _ List.getLast?_cons _ rfl

theorem divides_cuts (hc : c.Ordered) (start limit : Nat) :
    Divides c.settings.limit start limit (c.cuts start limit) := by
  fun_induction cuts c start limit with
  | case1 start hlong next hnext ih =>
    have hreach : next ≤ start + c.settings.limit := (cut_bounds hc hlong).2.1
    exact ih.cons hnext.1 hnext.2 (by omega) hlong
  | case2 start hlong next hstuck =>
    obtain ⟨hstart, -, hstop⟩ := cut_bounds hc hlong
    exact absurd ⟨hstart, hstop⟩ hstuck
  | case3 start hshort => exact divides_nil (Nat.not_lt.1 hshort)

/-! ### Machine words -/

/-- The sum of two machine words, unless it overflows. Words are the numbers below `size`. -/
def checkedAdd (size a b : Nat) : Option Nat := if a + b < size then some (a + b) else none

/-- `highEdge`, with every sum checked. -/
def checkedHighEdge (c : Cutter) (size start limit : Nat) : Option Nat := do
  let reach ← checkedAdd size start c.settings.limit
  return min reach (limit - 1)

/-- `lowEdge`, with every sum checked. -/
def checkedLowEdge (c : Cutter) (size start : Nat) : Option Nat := do
  let low ← checkedAdd size start c.floor
  let next ← checkedAdd size start 1
  return max low next

/-- `forcedCut`, with every sum checked. -/
def checkedForcedCut (c : Cutter) (size start high : Nat) : Option Nat := do
  match (c.mask.lineStarts.takeWhile (· ≤ high)).getLast? with
  | some line =>
    if start < line then return line
    else
      let low ← checkedAdd size start 1
      return snap c.mask.shown low high
  | none =>
    let low ← checkedAdd size start 1
    return snap c.mask.shown low high

/-- `cut`, with every sum checked. -/
def checkedCut (c : Cutter) (size start limit : Nat) : Option Nat := do
  let high ← c.checkedHighEdge size start limit
  let low ← c.checkedLowEdge size start
  let window := (c.candidates.dropWhile (·.offset < low)).takeWhile (·.offset ≤ high)
  match window.foldl better none with
  | some best => return best.offset
  | none => c.checkedForcedCut size start high

/-- `cuts`, with every sum checked. There is no outcome either when the search stands still. -/
def checkedCuts (c : Cutter) (size start limit : Nat) : Option (List Nat) :=
  if c.settings.limit < limit - start then
    (c.checkedCut size start limit).bind fun next =>
      if _h : start < next ∧ next < limit then (c.checkedCuts size next limit).map (next :: ·)
      else none
  else some []
termination_by limit - start

theorem checkedAdd_of_lt {size a b : Nat} (h : a + b < size) : checkedAdd size a b = some (a + b) :=
  if_pos h

theorem checkedForcedCut_eq (c : Cutter) {size start : Nat} (h : start + 1 < size) (high : Nat) :
    c.checkedForcedCut size start high = some (c.forcedCut start high) := by
  cases hline : (c.mask.lineStarts.takeWhile (· ≤ high)).getLast? with
  | none =>
    simp only [checkedForcedCut, forcedCut, hline, checkedAdd_of_lt h]
    rfl
  | some line =>
    by_cases hlt : start < line
    · simp only [checkedForcedCut, forcedCut, hline, if_pos hlt]
      rfl
    · simp only [checkedForcedCut, forcedCut, hline, if_neg hlt, checkedAdd_of_lt h]
      rfl

/-- A single cut is found without overflow if a whole piece can be added to its start. -/
theorem checkedCut_eq (c : Cutter) {size start : Nat} (h : start + c.settings.limit < size)
    (limit : Nat) : c.checkedCut size start limit = some (c.cut start limit) := by
  have hpos := c.settings.limit_pos
  have hfloor : c.floor ≤ c.settings.limit := Nat.min_le_right _ _
  have hnext : start + 1 < size := by omega
  have hhigh : c.checkedHighEdge size start limit = some (c.highEdge start limit) := by
    rw [checkedHighEdge, checkedAdd_of_lt h]
    rfl
  have hlow : c.checkedLowEdge size start = some (c.lowEdge start) := by
    rw [checkedLowEdge, checkedAdd_of_lt (by omega), checkedAdd_of_lt hnext]
    rfl
  cases hbest : (c.window start limit).foldl better none with
  | some best =>
    rw [cut_of_some hbest]
    rw [window] at hbest
    simp only [checkedCut, hhigh, hlow, Option.bind_eq_bind, Option.bind_some, hbest]
    rfl
  | none =>
    rw [cut_of_none hbest]
    rw [window] at hbest
    simp only [checkedCut, hhigh, hlow, Option.bind_eq_bind, Option.bind_some, hbest]
    exact c.checkedForcedCut_eq hnext _

/-- In a range of machine words no sum overflows, and the search never stands still. -/
theorem checkedCuts_eq (hc : c.Ordered) {size limit : Nat} (h : limit < size) (start : Nat) :
    c.checkedCuts size start limit = some (c.cuts start limit) := by
  fun_induction cuts c start limit with
  | case1 start hlong next hnext ih =>
    have hcut : c.checkedCut size start limit = some next := c.checkedCut_eq (by omega) limit
    rw [checkedCuts, if_pos hlong, hcut, Option.bind_some, dif_pos hnext, ih]
    rfl
  | case2 start hlong next hstuck =>
    obtain ⟨hstart, -, hstop⟩ := cut_bounds hc hlong
    exact absurd ⟨hstart, hstop⟩ hstuck
  | case3 start hshort => rw [checkedCuts, if_neg hshort]

/-- **A range is cut into pieces of at most a chunk.** For every mask, all settings and every range,
the cuts ascend inside the range, no piece between them is larger than a chunk, and there are none
only if the range is no larger itself. If the range is one of machine words, then on the way no sum
overflows and the search never stands still. -/
theorem cuts_divide (settings : Settings.Chunking) (mask : Mask) (start limit : Nat) :
    Divides settings.limit start limit ((ofMask settings mask).cuts start limit) ∧
      ∀ size, limit < size →
        (ofMask settings mask).checkedCuts size start limit =
          some ((ofMask settings mask).cuts start limit) :=
  ⟨divides_cuts (ordered_ofMask settings mask) start limit,
    fun _ hsize => checkedCuts_eq (ordered_ofMask settings mask) hsize start⟩

/-- One line, with characters of two and three bytes. -/
def wideCharacters : Cutter :=
  ofMask { maxChunkBytes := 2 } (.ofSource (.ofString "x\u00e9\u20acy"))

/-- The second character is kept whole. The third is larger than a piece and is cut. -/
theorem cuts_divide_wideCharacters :
    7 < 2 ^ 64 ∧ wideCharacters.cuts 0 7 = [1, 3, 4, 6] ∧
      Divides wideCharacters.settings.limit 0 7 (wideCharacters.cuts 0 7) ∧
      wideCharacters.checkedCuts (2 ^ 64) 0 7 = some (wideCharacters.cuts 0 7) :=
  ⟨by norm_num, by decide +kernel, (cuts_divide _ _ 0 7).1,
    (cuts_divide _ _ 0 7).2 (2 ^ 64) (by norm_num)⟩

end Cutter

end SymbolAtlas
