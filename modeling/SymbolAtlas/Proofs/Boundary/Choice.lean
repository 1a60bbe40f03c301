import Mathlib.Tactic
import SymbolAtlas.Boundary.Plan
import SymbolAtlas.Proofs.Boundary.Candidate

/-!
# The choice of a cut

A cut is chosen among the candidates in a window: those in front of it are skipped, those behind it
are never looked at. As candidates ascend, the choice is still made among all candidates in the
window (`mem_window_iff`). The best of them has the highest score, and of equal ones it is the last
(`IsBest`).

* `cut_cases` — a cut is the best candidate within reach, or forced because there is none;
* `cut_isBest` — what candidates are, and that the best one is chosen.
-/

namespace SymbolAtlas

/-- The candidate is not preferred to `best`, which scores higher, or as high and lies no
earlier. -/
def Candidate.NoBetter (k best : Candidate) : Prop :=
  k.score < best.score ∨ k.score = best.score ∧ k.offset ≤ best.offset

namespace Cutter

/-! ### The window -/

/-- The candidates of the cutter are in ascending order. -/
def Ordered (c : Cutter) : Prop := c.candidates.Pairwise fun a b => a.offset < b.offset

theorem ordered_ofMask (settings : Settings.Chunking) (mask : Mask) :
    (ofMask settings mask).Ordered :=
  Candidate.pairwise_ofMask mask settings.maxDepth

/-- The first bytes of a piece, in which no cut is looked for. A share above one counts as one. -/
def floor (c : Cutter) : Nat :=
  min (Double.mul (.ofNat c.settings.limit) c.settings.searchFloor).toNat c.settings.limit

/-- The candidate lies where a cut between `start` and `limit` is looked for. -/
def InReach (c : Cutter) (start limit : Nat) (k : Candidate) : Prop :=
  max (start + c.floor) (start + 1) ≤ k.offset ∧
    k.offset ≤ min (start + c.settings.limit) (limit - 1)

instance (c : Cutter) (start limit : Nat) (k : Candidate) : Decidable (c.InReach start limit k) :=
  inferInstanceAs (Decidable (_ ∧ _))

/-- No candidate lies where a cut between `start` and `limit` is looked for. -/
def OutOfReach (c : Cutter) (start limit : Nat) : Prop :=
  ∀ k ∈ c.candidates, ¬ (c.lowEdge start ≤ k.offset ∧ k.offset ≤ c.highEdge start limit)

/-- The candidates among which a cut between `start` and `limit` is chosen. -/
def window (c : Cutter) (start limit : Nat) : List Candidate :=
  (c.candidates.dropWhile (·.offset < c.lowEdge start)).takeWhile
    (·.offset ≤ c.highEdge start limit)

theorem dropWhile_offset_lt {candidates : List Candidate}
    (hordered : candidates.Pairwise fun a b => a.offset < b.offset) (low : Nat) :
    candidates.dropWhile (·.offset < low) = candidates.filter (low ≤ ·.offset) := by
  induction candidates with
  | nil => rfl
  | cons k candidates ih =>
    obtain ⟨hafter, hordered⟩ := List.pairwise_cons.1 hordered
    by_cases hk : k.offset < low
    · rw [List.dropWhile_cons_of_pos (by simpa using hk), ih hordered,
        List.filter_cons_of_neg (by simpa using hk)]
    · -- The first candidate that is kept lies in front of all others.
      rw [List.dropWhile_cons_of_neg (by simpa using hk), List.filter_eq_self.2]
      intro a ha
      rcases List.mem_cons.1 ha with rfl | ha
      · simpa using hk
      · have := hafter a ha
        simp only [decide_eq_true_eq]
        omega

theorem takeWhile_offset_le {candidates : List Candidate}
    (hordered : candidates.Pairwise fun a b => a.offset < b.offset) (high : Nat) :
    candidates.takeWhile (·.offset ≤ high) = candidates.filter (·.offset ≤ high) := by
  induction candidates with
  | nil => rfl
  | cons k candidates ih =>
    obtain ⟨hafter, hordered⟩ := List.pairwise_cons.1 hordered
    by_cases hk : k.offset ≤ high
    · rw [List.takeWhile_cons_of_pos (by simpa using hk), ih hordered,
        List.filter_cons_of_pos (by simpa using hk)]
    · rw [List.takeWhile_cons_of_neg (by simpa using hk), List.filter_eq_nil_iff.2]
      intro a ha
      rcases List.mem_cons.1 ha with rfl | ha
      · simpa using hk
      · have := hafter a ha
        simp only [decide_eq_true_eq]
        omega

variable {c : Cutter}

theorem mem_window_iff (hc : c.Ordered) {start limit : Nat} {k : Candidate} :
    k ∈ c.window start limit ↔ k ∈ c.candidates ∧ c.InReach start limit k := by
  have hdrop := hc.sublist (List.dropWhile_sublist (·.offset < c.lowEdge start))
  rw [window, takeWhile_offset_le hdrop, dropWhile_offset_lt hc, List.mem_filter, List.mem_filter,
    decide_eq_true_eq, decide_eq_true_eq, and_assoc]
  rfl

/-! ### The best candidate -/

/-- Of ascending candidates, the last of those with the highest score is kept. -/
theorem exists_foldl_better {b : Candidate} {window : List Candidate}
    (hordered : (b :: window).Pairwise fun x y => x.offset < y.offset) :
    ∃ best ∈ b :: window, window.foldl better (some b) = some best ∧
      ∀ k ∈ b :: window, k.NoBetter best := by
  induction window generalizing b with
  | nil => exact ⟨b, List.mem_cons_self, rfl, by simp [Candidate.NoBetter]⟩
  | cons a window ih =>
    obtain ⟨hafter, hrest⟩ := List.pairwise_cons.1 hordered
    have hlt : b.offset < a.offset := hafter a List.mem_cons_self
    by_cases hscore : a.score < b.score
    · -- The candidate kept so far is compared with the rest.
      have hskip : (b :: window).Pairwise fun x y => x.offset < y.offset :=
        List.pairwise_cons.2 ⟨fun k hk => hafter k (List.mem_cons_of_mem a hk), hrest.of_cons⟩
      obtain ⟨best, hmem, hfold, hbest⟩ := ih hskip
      refine ⟨best, ?_, ?_, ?_⟩
      · rcases List.mem_cons.1 hmem with rfl | hmem
        · exact List.mem_cons_self
        · exact List.mem_cons_of_mem _ (List.mem_cons_of_mem _ hmem)
      · simp only [List.foldl_cons, better, if_pos hscore, hfold]
      · intro k hk
        rcases List.mem_cons.1 hk with rfl | hk
        · exact hbest k List.mem_cons_self
        · rcases List.mem_cons.1 hk with rfl | hk
          · have hb := hbest b List.mem_cons_self
            unfold Candidate.NoBetter at hb ⊢
            omega
          · exact hbest k (List.mem_cons_of_mem _ hk)
    · obtain ⟨best, hmem, hfold, hbest⟩ := ih hrest
      refine ⟨best, List.mem_cons_of_mem _ hmem, ?_, ?_⟩
      · simp only [List.foldl_cons, better, if_neg hscore, hfold]
      · intro k hk
        rcases List.mem_cons.1 hk with rfl | hk
        · have ha := hbest a List.mem_cons_self
          unfold Candidate.NoBetter at ha ⊢
          omega
        · exact hbest k hk

/-- The candidate is the best one within reach. -/
structure IsBest (c : Cutter) (start limit : Nat) (best : Candidate) : Prop where
  mem : best ∈ c.candidates
  inReach : c.InReach start limit best
  noBetter : ∀ k ∈ c.candidates, c.InReach start limit k → k.NoBetter best

theorem cut_of_some {start limit : Nat} {best : Candidate}
    (h : (c.window start limit).foldl better none = some best) :
    c.cut start limit = best.offset := by
  rw [window] at h
  simp only [cut, h]

theorem cut_of_none {start limit : Nat} (h : (c.window start limit).foldl better none = none) :
    c.cut start limit = c.forcedCut start (c.highEdge start limit) := by
  rw [window] at h
  simp only [cut, h]

/-- A cut is at the best candidate within reach, or it is forced because there is none. -/
theorem cut_cases (hc : c.Ordered) (start limit : Nat) :
    (∃ best, c.IsBest start limit best ∧ c.cut start limit = best.offset) ∨
      (c.OutOfReach start limit ∧
        c.cut start limit = c.forcedCut start (c.highEdge start limit)) := by
  have hordered : (c.window start limit).Pairwise fun a b => a.offset < b.offset :=
    hc.sublist ((List.takeWhile_sublist _).trans (List.dropWhile_sublist _))
  cases hwindow : c.window start limit with
  | nil =>
    refine Or.inr ⟨fun k hk hreach => ?_, cut_of_none (by rw [hwindow]; rfl)⟩
    have hmem := (mem_window_iff hc).2 ⟨hk, hreach⟩
    rw [hwindow] at hmem
    cases hmem
  | cons b window =>
    rw [hwindow] at hordered
    obtain ⟨best, hmem, hfold, hbest⟩ := exists_foldl_better hordered
    rw [← hwindow] at hmem hbest
    obtain ⟨hbestmem, hreach⟩ := (mem_window_iff hc).1 hmem
    refine Or.inl ⟨best, ⟨hbestmem, hreach, fun k hk hkreach => ?_⟩, ?_⟩
    · exact hbest k ((mem_window_iff hc).2 ⟨hk, hkreach⟩)
    · exact cut_of_some (by rw [hwindow]; exact hfold)

/-- **A cut is made at the best line end within reach.** The candidates of a mask ascend; each lies
behind a newline that is live code, with few enough braces and no parenthesis or bracket open; and
as soon as one of them is within reach of a place, the piece that begins there is cut at the best
one. -/
theorem cut_isBest (settings : Settings.Chunking) (mask : Mask) :
    (ofMask settings mask).candidates.Pairwise (fun a b => a.offset < b.offset) ∧
      (∀ k ∈ (ofMask settings mask).candidates,
        0 < k.offset ∧ mask.shown[k.offset - 1]? = some Byte.newline ∧
          mask.isCode (k.offset - 1) = true ∧ mask.braceDepth k.offset ≤ settings.maxDepth ∧
          Mask.depthIn Byte.openParen Byte.closeParen (mask.shown.take k.offset) = 0 ∧
          Mask.depthIn Byte.openBracket Byte.closeBracket (mask.shown.take k.offset) = 0) ∧
      ∀ start limit,
        (∃ k ∈ (ofMask settings mask).candidates, (ofMask settings mask).InReach start limit k) →
        ∃ best, (ofMask settings mask).IsBest start limit best ∧
          (ofMask settings mask).cut start limit = best.offset := by
  have hordered := ordered_ofMask settings mask
  refine ⟨hordered, fun k hk => ?_, ?_⟩
  · have hends := Candidate.endsLine_of_mem_ofMask hk
    have hcode : mask.isCode (k.offset - 1) = true := by rw [Mask.isCode, hends.live]; rfl
    have hbraces : mask.braceDepth k.offset ≤ settings.maxDepth := by
      rw [Mask.braceDepth_eq]
      exact hends.braces
    exact ⟨hends.pos, hends.newline, hcode, hbraces, hends.parens, hends.brackets⟩
  · rintro start limit ⟨k, hk, hreach⟩
    rcases cut_cases hordered start limit with hbest | ⟨hout, -⟩
    · exact hbest
    · exact absurd hreach (hout k hk)

/-- Two statements on lines of their own, and more text. -/
def twoStatements : Cutter :=
  ofMask { maxChunkBytes := 8, searchFloor := .ofDecimal false 25 (-2) }
    (.ofSource (.ofString "a;\nb;\nc\nd\n"))

/-- Both statements end within reach and score alike, and the text is cut after the second. -/
theorem cut_isBest_twoStatements :
    (∃ k ∈ twoStatements.candidates, twoStatements.InReach 0 10 k) ∧
      twoStatements.cut 0 10 = 6 ∧
      ∃ best, twoStatements.IsBest 0 10 best ∧ twoStatements.cut 0 10 = best.offset := by
  have hreach : ∃ k ∈ twoStatements.candidates, twoStatements.InReach 0 10 k := by decide +kernel
  exact ⟨hreach, by decide +kernel, (cut_isBest _ _).2.2 0 10 hreach⟩

end Cutter

end SymbolAtlas
