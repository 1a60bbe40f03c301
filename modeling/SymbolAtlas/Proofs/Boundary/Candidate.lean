import Mathlib.Tactic
import SymbolAtlas.Boundary.Candidate

/-!
# What is known of ranked line ends

The scan for candidates keeps depths of its own while it reads. They are those that the whole text
up to the place has (`Reading.Counts`), so that a candidate can be judged by the mask alone.

* `step_cases` — all that reading one byte can do;
* `Scanned` — what the scan knows after some bytes, kept by each step (`Scanned.step`) and so by a
  run of them (`Scanned.foldl`);
* `pairwise_ofMask`, `endsLine_of_mem_ofMask` — the candidates of a mask ascend, and each lies
  behind a live newline where few braces and nothing else is open.
-/

namespace SymbolAtlas

namespace Mask

/-- The depth after byte `b` in pairs of `opening` and `closing`. A closing byte without a partner
counts for nothing. -/
def nestIn (opening closing : Byte) (depth : Nat) (b : Byte) : Nat :=
  if b == opening then depth + 1 else if b == closing then depth - 1 else depth

/-- The pairs of `opening` and `closing` that are open at the end of `s`. -/
def depthIn (opening closing : Byte) (s : Bytes) : Nat :=
  s.foldl (nestIn opening closing) 0

theorem depthIn_concat (opening closing : Byte) (s : Bytes) (b : Byte) :
    depthIn opening closing (s ++ [b]) = nestIn opening closing (depthIn opening closing s) b := by
  rw [depthIn, List.foldl_append]
  rfl

theorem nestIn_of_ne {opening closing b : Byte} (hopen : b ≠ opening) (hclose : b ≠ closing)
    (depth : Nat) : nestIn opening closing depth b = depth := by
  simp [nestIn, hopen, hclose]

theorem braceDepth_eq (m : Mask) (stop : Nat) :
    m.braceDepth stop = depthIn Byte.openBrace Byte.closeBrace (m.shown.take stop) := rfl

end Mask

namespace Candidate

open Mask

/-! ### Depths -/

/-- The depths of the reading are those at the end of the text `s`. -/
structure Reading.Counts (s : Bytes) (r : Reading) : Prop where
  braces : r.braces = depthIn Byte.openBrace Byte.closeBrace s
  parens : r.parens = depthIn Byte.openParen Byte.closeParen s
  brackets : r.brackets = depthIn Byte.openBracket Byte.closeBracket s

/-- A byte that is none of the brackets leaves all depths as they are. -/
theorem Reading.Counts.of_blank {s : Bytes} {r r' : Reading} {b : Byte} (h : r.Counts s)
    (hb : b = Byte.newline ∨ b = Byte.space ∨ b = Byte.tab ∨ b = Byte.carriageReturn)
    (hbraces : r'.braces = r.braces) (hparens : r'.parens = r.parens)
    (hbrackets : r'.brackets = r.brackets) : r'.Counts (s ++ [b]) := by
  have hne : ∀ c : Byte, c ∉ [Byte.newline, Byte.space, Byte.tab, Byte.carriageReturn] → b ≠ c := by
    rintro c hc rfl
    simp [hb] at hc
  constructor
  · rw [hbraces, h.braces, depthIn_concat, nestIn_of_ne] <;> exact hne _ (by decide)
  · rw [hparens, h.parens, depthIn_concat, nestIn_of_ne] <;> exact hne _ (by decide)
  · rw [hbrackets, h.brackets, depthIn_concat, nestIn_of_ne] <;> exact hne _ (by decide)

theorem Reading.Counts.read {s : Bytes} {r : Reading} (h : r.Counts s) (b : Byte) :
    (r.read b).Counts (s ++ [b]) := by
  by_cases hblank : (b == Byte.space || b == Byte.tab || b == Byte.carriageReturn) = true
  · have hb : b = Byte.newline ∨ b = Byte.space ∨ b = Byte.tab ∨ b = Byte.carriageReturn := by
      simp only [Bool.or_eq_true, beq_iff_eq, or_assoc] at hblank
      exact Or.inr hblank
    apply h.of_blank hb <;> rw [Reading.read, if_pos hblank] <;> split <;> rfl
  · rw [Reading.read, if_neg hblank]
    constructor
    · rw [depthIn_concat, ← h.braces]
      rfl
    · rw [depthIn_concat, ← h.parens]
      rfl
    · rw [depthIn_concat, ← h.brackets]
      rfl

theorem Reading.Counts.nextLine {s : Bytes} {r : Reading} (h : r.Counts s) :
    r.nextLine.Counts (s ++ [Byte.newline]) :=
  h.of_blank (Or.inl rfl) rfl rfl rfl

/-! ### The scan -/

/-- A byte is read into the line, or it ends the line, and then a candidate may be found behind
it. -/
theorem step_cases (maxDepth : Nat) (st : Reading × List Candidate) (b : Byte) (code : Bool)
    (next : Nat) :
    step maxDepth st ((b, code), next) = (st.1.read b, st.2) ∨
      b = Byte.newline ∧
        (step maxDepth st ((b, code), next) = (st.1.nextLine, st.2) ∨
          ∃ score, code = true ∧ st.1.mayEnd maxDepth = true ∧
            step maxDepth st ((b, code), next) = (st.1.nextLine, ⟨next, score⟩ :: st.2)) := by
  obtain ⟨r, found⟩ := st
  simp only [step]
  by_cases hb : b = Byte.newline
  · refine Or.inr ⟨hb, ?_⟩
    rw [if_pos (by simpa using hb)]
    by_cases hend : (code && r.mayEnd maxDepth) = true
    · rw [if_pos hend]
      obtain ⟨hcode, hmay⟩ := Bool.and_eq_true_iff.1 hend
      cases score? r with
      | none => exact Or.inl rfl
      | some score => exact Or.inr ⟨score, hcode, hmay, rfl⟩
    · rw [if_neg hend]
      exact Or.inl rfl
  · rw [if_neg (by simpa using hb)]
    exact Or.inl rfl

/-- Offset `stop` lies behind a newline that is live code. Up to there at most `maxDepth` braces are
open, and no parenthesis or bracket. -/
structure EndsLine (maxDepth : Nat) (shown : Bytes) (code : List Bool) (stop : Nat) : Prop where
  pos : 0 < stop
  newline : shown[stop - 1]? = some Byte.newline
  live : code[stop - 1]? = some true
  braces : depthIn Byte.openBrace Byte.closeBrace (shown.take stop) ≤ maxDepth
  parens : depthIn Byte.openParen Byte.closeParen (shown.take stop) = 0
  brackets : depthIn Byte.openBracket Byte.closeBracket (shown.take stop) = 0

theorem EndsLine.le_length {maxDepth stop : Nat} {shown : Bytes} {code : List Bool}
    (h : EndsLine maxDepth shown code stop) : stop ≤ shown.length := by
  have hlt := (List.getElem?_eq_some_iff.1 h.newline).1
  omega

/-- Whatever follows, the line still ends there. -/
theorem EndsLine.append {maxDepth stop : Nat} {shown : Bytes} {code : List Bool}
    (h : EndsLine maxDepth shown code stop) (moreShown : Bytes) (moreCode : List Bool) :
    EndsLine maxDepth (shown ++ moreShown) (code ++ moreCode) stop := by
  have hshown := (List.getElem?_eq_some_iff.1 h.newline).1
  have hcode := (List.getElem?_eq_some_iff.1 h.live).1
  have htake : (shown ++ moreShown).take stop = shown.take stop :=
    List.take_append_of_le_length h.le_length
  refine ⟨h.pos, ?_, ?_, ?_, ?_, ?_⟩
  · rw [List.getElem?_append_left hshown, h.newline]
  · rw [List.getElem?_append_left hcode, h.live]
  · rw [htake]
    exact h.braces
  · rw [htake]
    exact h.parens
  · rw [htake]
    exact h.brackets

/-- A newline ends a line if the reading in front of it may end one. -/
theorem Reading.Counts.endsLine {shown : Bytes} {code : List Bool} {r : Reading} {maxDepth : Nat}
    (h : r.Counts shown) (hlength : code.length = shown.length)
    (hmay : r.mayEnd maxDepth = true) :
    EndsLine maxDepth (shown ++ [Byte.newline]) (code ++ [true]) (shown.length + 1) := by
  simp only [Reading.mayEnd, Bool.and_eq_true, beq_iff_eq, decide_eq_true_eq] at hmay
  obtain ⟨⟨hparens, hbrackets⟩, hbraces⟩ := hmay
  have htake : (shown ++ [Byte.newline]).take (shown.length + 1) = shown ++ [Byte.newline] :=
    List.take_of_length_le (by simp)
  have hnext := h.nextLine
  refine ⟨Nat.succ_pos _, by simp, by simp [← hlength], ?_, ?_, ?_⟩
  · rw [htake, ← hnext.braces]
    exact hbraces
  · rw [htake, ← hnext.parens]
    exact hparens
  · rw [htake, ← hnext.brackets]
    exact hbrackets

/-- What the scan knows after the bytes `shown` with the verdicts `code`: the depths, and the
candidates among them, the last one first. -/
structure Scanned (maxDepth : Nat) (shown : Bytes) (code : List Bool)
    (st : Reading × List Candidate) : Prop where
  length_eq : code.length = shown.length
  counts : st.1.Counts shown
  descending : st.2.Pairwise fun a b => b.offset < a.offset
  endsLine : ∀ k ∈ st.2, EndsLine maxDepth shown code k.offset

theorem scanned_nil (maxDepth : Nat) : Scanned maxDepth [] [] ({}, []) where
  length_eq := rfl
  counts := ⟨rfl, rfl, rfl⟩
  descending := .nil
  endsLine := by simp

theorem Scanned.step {maxDepth : Nat} {shown : Bytes} {code : List Bool}
    {st : Reading × List Candidate} (h : Scanned maxDepth shown code st) (b : Byte) (live : Bool) :
    Scanned maxDepth (shown ++ [b]) (code ++ [live])
      (step maxDepth st ((b, live), shown.length + 1)) := by
  have hlength : (code ++ [live]).length = (shown ++ [b]).length := by simp [h.length_eq]
  have hkeep : ∀ k ∈ st.2, EndsLine maxDepth (shown ++ [b]) (code ++ [live]) k.offset :=
    fun k hk => (h.endsLine k hk).append _ _
  rcases step_cases maxDepth st b live (shown.length + 1) with
    heq | ⟨rfl, heq | ⟨score, rfl, hmay, heq⟩⟩
  · rw [heq]
    exact ⟨hlength, h.counts.read b, h.descending, hkeep⟩
  · rw [heq]
    exact ⟨hlength, h.counts.nextLine, h.descending, hkeep⟩
  · rw [heq]
    refine ⟨hlength, h.counts.nextLine, List.pairwise_cons.2 ⟨?_, h.descending⟩, ?_⟩
    · -- Earlier candidates lie behind bytes that were read before.
      exact fun a ha => Nat.lt_succ_of_le (h.endsLine a ha).le_length
    · exact List.forall_mem_cons.2 ⟨h.counts.endsLine h.length_eq hmay, hkeep⟩

theorem Scanned.foldl {maxDepth : Nat} {shown : Bytes} {code : List Bool}
    {st : Reading × List Candidate} (h : Scanned maxDepth shown code st)
    (items : List (Byte × Bool)) :
    Scanned maxDepth (shown ++ items.map Prod.fst) (code ++ items.map Prod.snd)
      ((items.zipIdx (shown.length + 1)).foldl (Candidate.step maxDepth) st) := by
  induction items generalizing shown code st with
  | nil => simpa using h
  | cons item items ih =>
    have hnext := ih (h.step item.1 item.2)
    rw [List.length_append, List.append_assoc, List.append_assoc] at hnext
    exact hnext

/-! ### The candidates of a mask -/

theorem scanned_ofMask (m : Mask) (maxDepth : Nat) :
    Scanned maxDepth ((m.shown.zip m.code).map Prod.fst) ((m.shown.zip m.code).map Prod.snd)
      (((m.shown.zip m.code).zipIdx 1).foldl (step maxDepth) ({}, [])) :=
  (scanned_nil maxDepth).foldl (m.shown.zip m.code)

theorem pairwise_ofMask (m : Mask) (maxDepth : Nat) :
    (ofMask m maxDepth).Pairwise fun a b => a.offset < b.offset := by
  rw [ofMask, List.pairwise_reverse]
  exact (scanned_ofMask m maxDepth).descending

theorem endsLine_of_mem_ofMask {m : Mask} {maxDepth : Nat} {k : Candidate}
    (hk : k ∈ ofMask m maxDepth) : EndsLine maxDepth m.shown m.code k.offset := by
  -- The scan reads no further than there are both bytes and verdicts.
  have hshown : (m.shown.zip m.code).map Prod.fst <+: m.shown := by
    rw [List.zip_eq_zip_take_min, List.map_fst_zip (by simp)]
    exact List.take_prefix _ _
  have hcode : (m.shown.zip m.code).map Prod.snd <+: m.code := by
    rw [List.zip_eq_zip_take_min, List.map_snd_zip (by simp)]
    exact List.take_prefix _ _
  obtain ⟨moreShown, hshown⟩ := hshown
  obtain ⟨moreCode, hcode⟩ := hcode
  have h := (scanned_ofMask m maxDepth).endsLine k (List.mem_reverse.1 hk)
  have happend := h.append moreShown moreCode
  rwa [hshown, hcode] at happend

theorem of_mem_ofMask {m : Mask} {maxDepth : Nat} {k : Candidate} (hk : k ∈ ofMask m maxDepth) :
    0 < k.offset ∧ m.shown[k.offset - 1]? = some Byte.newline ∧
      m.code[k.offset - 1]? = some true := by
  have h := endsLine_of_mem_ofMask hk
  exact ⟨h.pos, h.newline, h.live⟩

end Candidate

end SymbolAtlas
