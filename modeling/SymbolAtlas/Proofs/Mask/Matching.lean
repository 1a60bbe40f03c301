import Mathlib.Data.Nat.PSub
import Mathlib.Order.Bounds.Basic
import Mathlib.Tactic
import SymbolAtlas.Proofs.Mask.Braces
import SymbolAtlas.Text.Utf8

/-!
# Matching braces and depth

`Mask.matchingBrace` counts from one opening brace and stops when its count is used up.
`Mask.braceDepth` counts from the start of the text, and a closing brace without a partner counts
for nothing there. As long as the first count is positive, a byte moves both alike (`nest_add`), so
the brace that is found is the first one behind which the depth is what it was in front.

* `isLeast_of_matchingBrace` — the matching brace by depth alone;
* `closing_le_of_mem` — what is opened inside is closed inside;
* `matchingBrace_nests` — the whole account, and that the count is never taken below zero.
-/

namespace SymbolAtlas.Mask

/-! ### The count from a brace on -/

/-- The depth moves with a positive count. A closing brace finds a partner for both. -/
theorem nest_add {count : Nat} (hcount : 0 < count) (base : Nat) (b : Byte) :
    nest (base + count) b = base + nest count b := by
  by_cases hopen : b = Byte.openBrace
  · subst hopen
    rw [nest_openBrace, nest_openBrace, Nat.add_assoc]
  · by_cases hclose : b = Byte.closeBrace
    · subst hclose
      rw [nest_closeBrace, nest_closeBrace, Nat.add_sub_assoc hcount]
    · rw [nest_of_ne hopen hclose, nest_of_ne hopen hclose]

/-- Only a closing brace at a count of one uses the count up. -/
theorem nest_pos {count : Nat} {b : Byte} (hcount : 0 < count)
    (h : ¬ (b == Byte.closeBrace && count ≤ 1) = true) : 0 < nest count b := by
  by_cases hopen : b = Byte.openBrace
  · subst hopen
    exact count.succ_pos
  · by_cases hclose : b = Byte.closeBrace
    · subst hclose
      have hlt : 1 < count := by simpa using h
      rw [nest_closeBrace]
      omega
    · rwa [nest_of_ne hopen hclose]

theorem closingFrom_closeBrace {count : Nat} (hcount : 0 < count) (offset : Nat) (s : Bytes) :
    closingFrom (count + 1) offset (Byte.closeBrace :: s) = closingFrom count (offset + 1) s := by
  rw [closingFrom, if_neg (by simp; omega), nest_closeBrace, Nat.add_sub_cancel]

/-- Behind the closing brace the depth is the one the count was started at. -/
theorem foldl_nest_of_closingFrom {count offset j : Nat} {s : Bytes} (hcount : 0 < count)
    (h : closingFrom count offset s = some j) (base : Nat) :
    ∃ taken, j = offset + taken ∧ (s.take (taken + 1)).foldl nest (base + count) = base := by
  induction s generalizing count offset with
  | nil => cases h
  | cons b s ih =>
    by_cases hdone : b == Byte.closeBrace && count ≤ 1
    · rw [closingFrom, if_pos hdone] at h
      obtain ⟨rfl⟩ := h
      obtain ⟨hb, hle⟩ := Bool.and_eq_true_iff.1 hdone
      obtain rfl := eq_of_beq hb
      obtain rfl : count = 1 := le_antisymm (of_decide_eq_true hle) hcount
      exact ⟨0, rfl, rfl⟩
    · rw [closingFrom, if_neg hdone] at h
      obtain ⟨taken, rfl, htaken⟩ := ih (nest_pos hcount hdone) h
      refine ⟨taken + 1, by omega, ?_⟩
      rw [List.take_succ_cons, List.foldl_cons, nest_add hcount, htaken]

/-! ### The matching brace by depth -/

section Matching

variable {m : Mask} {start stop : Nat}

theorem matchingBrace_of_openBrace (hstart : m.shown[start]? = some Byte.openBrace) :
    m.matchingBrace start = closingFrom 1 (start + 1) (m.shown.drop (start + 1)) := by
  rw [matchingBrace, drop_of_openBrace hstart]
  rfl

theorem braceDepth_succ_of_openBrace (hstart : m.shown[start]? = some Byte.openBrace) :
    m.braceDepth (start + 1) = m.braceDepth start + 1 := by
  rw [braceDepth, List.take_add_one, hstart, List.foldl_append]
  rfl

/-- The depth is greater than in front of an opening brace, up to the brace that matches it. -/
theorem braceDepth_lt (hstart : m.shown[start]? = some Byte.openBrace) {offset : Nat}
    (hlt : start < offset) (hmatch : ∀ j ∈ m.matchingBrace start, offset ≤ j) :
    m.braceDepth start < m.braceDepth offset := by
  have hsuffix := (suffix_openBraces hstart hlt hmatch).length_le
  rwa [List.length_cons, length_openBraces, length_openBraces] at hsuffix

/-- Past the matching brace the depth is again what it was in front of the opening one. -/
theorem braceDepth_of_matchingBrace (hstart : m.shown[start]? = some Byte.openBrace)
    (hstop : m.matchingBrace start = some stop) :
    start < stop ∧ m.braceDepth (stop + 1) = m.braceDepth start := by
  rw [matchingBrace_of_openBrace hstart] at hstop
  obtain ⟨taken, rfl, htaken⟩ :=
    foldl_nest_of_closingFrom Nat.one_pos hstop (m.braceDepth start)
  rw [← braceDepth_succ_of_openBrace hstart, braceDepth, ← List.foldl_append, ← List.take_add]
    at htaken
  exact ⟨by omega, htaken⟩

/-- The offsets behind the brace at `start` past which the depth is the one in front of it. -/
def levelPast (m : Mask) (start : Nat) : Set Nat :=
  {j | start < j ∧ m.braceDepth (j + 1) = m.braceDepth start}

theorem isLeast_of_matchingBrace (hstart : m.shown[start]? = some Byte.openBrace)
    (hstop : m.matchingBrace start = some stop) : IsLeast (m.levelPast start) stop := by
  refine ⟨braceDepth_of_matchingBrace hstart hstop, fun j hj => ?_⟩
  obtain ⟨hlt, hlevel⟩ := hj
  by_contra hbefore
  have hdeep : m.braceDepth start < m.braceDepth (j + 1) := by
    refine braceDepth_lt hstart (by omega) fun k hk => ?_
    obtain rfl : stop = k := Option.some.inj (hstop.symm.trans hk)
    omega
  omega

theorem levelPast_eq_empty (hstart : m.shown[start]? = some Byte.openBrace)
    (hnone : m.matchingBrace start = none) : m.levelPast start = ∅ := by
  refine Set.eq_empty_of_forall_notMem fun j hj => ?_
  have hdeep : m.braceDepth start < m.braceDepth (j + 1) :=
    braceDepth_lt hstart (hj.1.trans (Nat.lt_succ_self j)) (by simp [hnone])
  exact hdeep.ne' hj.2

theorem matchingBrace_eq_some_iff (hstart : m.shown[start]? = some Byte.openBrace) :
    m.matchingBrace start = some stop ↔ IsLeast (m.levelPast start) stop := by
  refine ⟨isLeast_of_matchingBrace hstart, fun hleast => ?_⟩
  cases hmatch : m.matchingBrace start with
  | none =>
    have hempty := levelPast_eq_empty hstart hmatch
    exact absurd hleast.1 (by simp [hempty])
  | some j => rw [(isLeast_of_matchingBrace hstart hmatch).unique hleast]

theorem matchingBrace_eq_none_iff (hstart : m.shown[start]? = some Byte.openBrace) :
    m.matchingBrace start = none ↔ m.levelPast start = ∅ := by
  refine ⟨levelPast_eq_empty hstart, fun hempty => ?_⟩
  cases hmatch : m.matchingBrace start with
  | none => rfl
  | some j =>
    have hmem := (isLeast_of_matchingBrace hstart hmatch).1
    exact absurd hmem (by simp [hempty])

/-! ### Nesting -/

/-- A brace that is opened before another is closed is closed no later than that one. -/
theorem closing_le_of_mem (hstart : m.shown[start]? = some Byte.openBrace)
    (hstop : m.matchingBrace start = some stop) {inner innerStop : Nat}
    (hinner : m.shown[inner]? = some Byte.openBrace)
    (hinnerStop : m.matchingBrace inner = some innerStop) (hlt : start < inner)
    (hle : inner ≤ stop) : innerStop ≤ stop := by
  by_contra hpast
  have houter : m.braceDepth start < m.braceDepth inner := by
    refine braceDepth_lt hstart hlt fun j hj => ?_
    obtain rfl : stop = j := Option.some.inj (hstop.symm.trans hj)
    exact hle
  -- Were the inner brace still open past the outer match, the depth there would be too great.
  have hdeep : m.braceDepth inner < m.braceDepth (stop + 1) := by
    refine braceDepth_lt hinner (by omega) fun j hj => ?_
    obtain rfl : innerStop = j := Option.some.inj (hinnerStop.symm.trans hj)
    omega
  have hlevel := (braceDepth_of_matchingBrace hstart hstop).2
  omega

/-- Of the stretches from two braces to their matches, one lies within the other, or one ends before
the other begins. -/
theorem nested_or_apart (hstart : m.shown[start]? = some Byte.openBrace)
    (hstop : m.matchingBrace start = some stop) {other otherStop : Nat}
    (hother : m.shown[other]? = some Byte.openBrace)
    (hotherStop : m.matchingBrace other = some otherStop) :
    start ≤ other ∧ otherStop ≤ stop ∨ other ≤ start ∧ stop ≤ otherStop ∨
      stop < other ∨ otherStop < start := by
  rcases lt_trichotomy start other with hlt | rfl | hlt
  · rcases le_or_gt other stop with hle | hapart
    · exact .inl ⟨hlt.le, closing_le_of_mem hstart hstop hother hotherStop hlt hle⟩
    · exact .inr (.inr (.inl hapart))
  · obtain rfl : stop = otherStop := Option.some.inj (hstop.symm.trans hotherStop)
    exact .inl ⟨le_rfl, le_rfl⟩
  · rcases le_or_gt start otherStop with hle | hapart
    · exact .inr (.inl ⟨hlt.le, closing_le_of_mem hother hotherStop hstart hstop hlt hle⟩)
    · exact .inr (.inr (.inr hapart))

end Matching

/-! ### The count with every subtraction checked -/

/-- The search for the brace at which the count is used up. There is no outcome if one is taken from
a count of zero. -/
def checkedClosing (count offset : Nat) : Bytes → Option (Option Nat)
  | [] => some none
  | b :: rest =>
    if b == Byte.openBrace then checkedClosing (count + 1) (offset + 1) rest
    else if b == Byte.closeBrace then
      (Nat.ppred count).bind fun count =>
        if count == 0 then some (some offset) else checkedClosing count (offset + 1) rest
    else checkedClosing count (offset + 1) rest

/-- `matchingBrace`, with the opening brace counted like any other and every subtraction checked. -/
def checkedMatchingBrace (m : Mask) (start : Nat) : Option (Option Nat) :=
  if m.shown[start]? == some Byte.openBrace then checkedClosing 0 start (m.shown.drop start)
  else some none

/-- From a positive count on, the count is positive whenever one is taken from it. -/
theorem checkedClosing_eq {count : Nat} (hcount : 0 < count) (offset : Nat) (s : Bytes) :
    checkedClosing count offset s = some (closingFrom count offset s) := by
  induction s generalizing count offset with
  | nil => rfl
  | cons b s ih =>
    by_cases hopen : b = Byte.openBrace
    · subst hopen
      exact ih count.succ_pos (offset + 1)
    · by_cases hclose : b = Byte.closeBrace
      · subst hclose
        obtain ⟨left, rfl⟩ := Nat.exists_eq_add_of_lt hcount
        rw [Nat.zero_add]
        by_cases hleft : left = 0
        · subst hleft
          rfl
        · have hpos : 0 < left := Nat.pos_of_ne_zero hleft
          rw [closingFrom_closeBrace hpos, ← ih hpos, checkedClosing, if_neg (by decide),
            if_pos (by decide), Nat.ppred_succ, Option.bind_some, if_neg (by simpa using hleft)]
      · rw [checkedClosing, if_neg (by simpa using hopen), if_neg (by simpa using hclose),
          closingFrom_of_ne hopen hclose, ih hcount]

theorem checkedMatchingBrace_eq {m : Mask} {start : Nat}
    (hstart : m.shown[start]? = some Byte.openBrace) :
    m.checkedMatchingBrace start = some (m.matchingBrace start) := by
  rw [checkedMatchingBrace, if_pos (by simpa using hstart), drop_of_openBrace hstart,
    matchingBrace_of_openBrace hstart]
  exact checkedClosing_eq Nat.one_pos _ _

/-- **Braces are matched by depth.** For every opening brace the search takes nothing from a count
of zero. It finds the first offset past which the depth is what it was in front of the brace, and
none only if there is no such offset. Up to there the depth is greater everywhere. The stretches
from two braces to their matches are nested or apart. -/
theorem matchingBrace_nests (m : Mask) {start : Nat}
    (hstart : m.shown[start]? = some Byte.openBrace) :
    m.checkedMatchingBrace start = some (m.matchingBrace start) ∧
      (∀ stop, m.matchingBrace start = some stop ↔
        IsLeast {j | start < j ∧ m.braceDepth (j + 1) = m.braceDepth start} stop) ∧
      (m.matchingBrace start = none ↔
        ∀ j, start < j → m.braceDepth (j + 1) ≠ m.braceDepth start) ∧
      (∀ offset, start < offset → (∀ stop ∈ m.matchingBrace start, offset ≤ stop) →
        m.braceDepth start < m.braceDepth offset) ∧
      ∀ other, m.shown[other]? = some Byte.openBrace →
        ∀ stop ∈ m.matchingBrace start, ∀ otherStop ∈ m.matchingBrace other,
          start ≤ other ∧ otherStop ≤ stop ∨ other ≤ start ∧ stop ≤ otherStop ∨
            stop < other ∨ otherStop < start := by
  refine ⟨checkedMatchingBrace_eq hstart, fun _ => matchingBrace_eq_some_iff hstart, ?_,
    fun _ => braceDepth_lt hstart, ?_⟩
  · rw [matchingBrace_eq_none_iff hstart, Set.eq_empty_iff_forall_notMem]
    exact forall_congr' fun j => not_and
  · intro other hother stop hstop otherStop hotherStop
    exact nested_or_apart hstart hstop hother hotherStop

/-- A closing brace without a partner, a block with another in it, and a block that stays open. -/
def strayBraces : Mask := .ofSource (.ofString "\x7d \x7b a \x7b \x7d \x7d \x7b")

/-- The brace in front changes no depth, so the search from the outer block ends at its own match,
with the inner block inside. -/
theorem matchingBrace_nests_strayBraces :
    strayBraces.shown[2]? = some Byte.openBrace ∧ strayBraces.shown[6]? = some Byte.openBrace ∧
      strayBraces.checkedMatchingBrace 2 = some (some 10) ∧
      strayBraces.matchingBrace 6 = some 8 ∧
      IsLeast {j | 2 < j ∧ strayBraces.braceDepth (j + 1) = strayBraces.braceDepth 2} 10 ∧
      strayBraces.braceDepth 2 < strayBraces.braceDepth 10 ∧
      (2 ≤ 6 ∧ 8 ≤ 10 ∨ 6 ≤ 2 ∧ 10 ≤ 8 ∨ 10 < 6 ∨ 8 < 2) ∧
      strayBraces.shown[12]? = some Byte.openBrace ∧
      ∀ j, 12 < j → strayBraces.braceDepth (j + 1) ≠ strayBraces.braceDepth 12 := by
  have houter : strayBraces.shown[2]? = some Byte.openBrace := by decide +kernel
  have hinner : strayBraces.shown[6]? = some Byte.openBrace := by decide +kernel
  have hopen : strayBraces.shown[12]? = some Byte.openBrace := by decide +kernel
  have hstop : strayBraces.matchingBrace 2 = some 10 := by decide +kernel
  have hinnerStop : strayBraces.matchingBrace 6 = some 8 := by decide +kernel
  obtain ⟨hchecked, hleast, -, hdeep, hnested⟩ := matchingBrace_nests strayBraces houter
  refine ⟨houter, hinner, hchecked.trans (congrArg some hstop), hinnerStop, (hleast 10).1 hstop,
    hdeep 10 (by decide) (by simp [hstop]), hnested 6 hinner 10 hstop 8 hinnerStop, hopen, ?_⟩
  exact (matchingBrace_nests strayBraces hopen).2.2.1.1 (by decide +kernel)

end SymbolAtlas.Mask
