import Mathlib.Tactic
import SymbolAtlas.Proofs.Boundary.Candidate
import SymbolAtlas.Proofs.Mask.Transcript

/-!
# Restarting the scanner at a line end

A text may be cut behind any newline that is live code, and its two parts scanned on their own: the
mask of the text is the two masks put together (`ofSource_splitsAt`). Every candidate for a cut is
such a place.

Three facts carry this:

* the scanner looks ahead only inside a line, so that what it makes of a line does not depend on
  the lines after it (`step_lookahead`, `liveFrom_through`);
* after a newline that is live code it is in its initial state, except that it knows of the newline
  (`advance_newline`);
* it looks back only for an identifier, which a newline is not part of (`liveFrom_restart`).
-/

namespace SymbolAtlas

namespace Scanner

open Bytes

/-! ### Looking ahead -/

theorem takeWhile_append_newline {p : Byte → Bool} (hp : p Byte.newline = false)
    (s post : Bytes) : (s ++ Byte.newline :: post).takeWhile p = s.takeWhile p := by
  induction s with
  | nil => simp [hp]
  | cons b s ih => by_cases hb : p b <;> simp [hb, ih]

theorem runLength_append_newline {b : Byte} (hb : b ≠ Byte.newline) (s post : Bytes) :
    runLength b (s ++ Byte.newline :: post) = runLength b s := by
  rw [runLength, takeWhile_append_newline (by simpa using hb.symm)]
  rfl

theorem head?_append_newline (s post : Bytes) :
    (s ++ Byte.newline :: post).head? = (s ++ [Byte.newline]).head? := by
  cases s <;> rfl

theorem stringAt?_append_newline (last : Option Byte) (s post : Bytes) :
    stringAt? last (s ++ Byte.newline :: post) = stringAt? last (s ++ [Byte.newline]) := by
  have hmarks (t : Bytes) :
      (s ++ Byte.newline :: t).takeWhile (fun b => b == Byte.dollar || b == Byte.atSign) =
        s.takeWhile fun b => b == Byte.dollar || b == Byte.atSign :=
    takeWhile_append_newline (by decide) s t
  have hle : (s.takeWhile fun b => b == Byte.dollar || b == Byte.atSign).length ≤ s.length :=
    (List.takeWhile_sublist _).length_le
  simp only [stringAt?, hmarks, List.drop_append_of_le_length hle,
    runLength_append_newline (show Byte.quote ≠ Byte.newline by decide)]

theorem opening?_lookahead (st : State) (b : Byte) (s post : Bytes) :
    opening? st b (s ++ Byte.newline :: post) = opening? st b (s ++ [Byte.newline]) := by
  have hstring := stringAt?_append_newline st.last (b :: s) post
  rw [List.cons_append, List.cons_append] at hstring
  rw [opening?, opening?, head?_append_newline, hstring]

theorem escapes_lookahead (b : Byte) (s post : Bytes) :
    escapes b (s ++ Byte.newline :: post) = escapes b (s ++ [Byte.newline]) := by
  rw [escapes, escapes, head?_append_newline]

theorem rawStep_lookahead (outer : List Mode) (quotes dollars : Nat) (b : Byte) (s post : Bytes) :
    rawStep outer quotes dollars b (s ++ Byte.newline :: post) =
      rawStep outer quotes dollars b (s ++ [Byte.newline]) := by
  have hquotes (t : Bytes) := runLength_append_newline (b := Byte.quote) (by decide) (b :: s) t
  have hbraces (t : Bytes) := runLength_append_newline (b := Byte.openBrace) (by decide) (b :: s) t
  simp only [List.cons_append] at hquotes hbraces
  rw [rawStep, rawStep, hquotes, hquotes, hbraces, hbraces]

theorem quotedStep_lookahead (outer : List Mode) (kind : StringKind) (b : Byte) (s post : Bytes) :
    quotedStep outer kind b (s ++ Byte.newline :: post) =
      quotedStep outer kind b (s ++ [Byte.newline]) := by
  rw [quotedStep, quotedStep, escapes_lookahead, head?_append_newline]

/-- What a token does is decided by its line. -/
theorem step_lookahead (st : State) (b : Byte) (s post : Bytes) :
    step st b (s ++ Byte.newline :: post) = step st b (s ++ [Byte.newline]) := by
  unfold step
  split
  · rw [opening?_lookahead]
  · rw [opening?_lookahead]
  · rfl
  · rw [head?_append_newline]
  · rw [escapes_lookahead]
  · unfold stringStep
    split
    · rw [rawStep_lookahead]
    · rw [quotedStep_lookahead]

theorem advance_lookahead (st : State) (b : Byte) (s post : Bytes) :
    advance st b (s ++ Byte.newline :: post) = advance st b (s ++ [Byte.newline]) := by
  unfold advance
  split
  · rfl
  · rw [step_lookahead]

/-! ### At a newline -/

theorem opening?_newline (st : State) (post : Bytes) : opening? st Byte.newline post = none := rfl

/-- A newline begins no token that goes on behind it. -/
theorem step_newline (st : State) (post : Bytes) :
    step st Byte.newline post = step st Byte.newline [] := by
  unfold step
  split
  · rw [opening?_newline, opening?_newline]
  · rw [opening?_newline, opening?_newline]
  · rfl
  · rfl
  · rfl
  case h_6 kind outer _ => cases kind <;> rfl

theorem advance_newline_eq (st : State) (post : Bytes) :
    advance st Byte.newline post = advance st Byte.newline [] := by
  unfold advance
  split
  · rfl
  · rw [step_newline]

theorem leaveAtNewline_code {outer : List Mode} (h : (leaveAtNewline outer).code = true) :
    leaveAtNewline outer =
      { modes := [], lineHasCode := false, code := true, shade := .keep } := by
  cases outer with
  | nil => rfl
  | cons => cases h

/-- A newline is live code only where nothing is left to be inside of. -/
theorem step_newline_code {st : State} (h : (step st Byte.newline []).code = true) :
    step st Byte.newline [] =
      { modes := [], lineHasCode := false, code := true, shade := .keep } := by
  unfold step at h ⊢
  split at h
  · rfl
  · cases h
  · exact leaveAtNewline_code h
  · cases h
  · exact leaveAtNewline_code h
  case h_6 kind outer _ =>
    cases kind with
    | regular => exact leaveAtNewline_code h
    | interpolated => exact leaveAtNewline_code h
    | verbatim => cases h
    | interpolatedVerbatim => cases h
    | raw quotes dollars => cases h

/-- Past a newline that is live code the scanner starts afresh, but for the byte behind it. -/
theorem advance_newline {st : State} (h : (advance st Byte.newline []).2.code = true) :
    (advance st Byte.newline []).1 = { last := some Byte.newline } := by
  unfold advance at h ⊢
  split at h
  · cases h
  · rw [step_newline_code h]
    rfl

/-! ### Through a newline and behind it -/

/-- The scanner past `s` and a newline behind it, and its note on the newline. -/
def throughNewline (st : State) : Bytes → State × Note
  | [] => advance st Byte.newline []
  | b :: s => throughNewline (advance st b (s ++ [Byte.newline])).1 s

theorem liveFrom_through (st : State) (s post : Bytes) :
    liveFrom st (s ++ Byte.newline :: post) =
      liveFrom st (s ++ [Byte.newline]) ++ liveFrom (throughNewline st s).1 post := by
  induction s generalizing st with
  | nil =>
    simp only [List.nil_append, liveFrom_cons, throughNewline]
    rw [advance_newline_eq]
    rfl
  | cons b s ih =>
    simp only [List.cons_append, liveFrom_cons, throughNewline]
    rw [advance_lookahead, ih]

theorem getElem?_liveFrom_newline (st : State) (s post : Bytes) :
    (liveFrom st (s ++ Byte.newline :: post))[s.length]? = some (throughNewline st s).2.code := by
  induction s generalizing st with
  | nil =>
    rw [List.nil_append, liveFrom_cons, advance_newline_eq]
    rfl
  | cons b s ih =>
    rw [List.cons_append, liveFrom_cons, List.length_cons, List.getElem?_cons_succ,
      advance_lookahead, ih]
    rfl

theorem throughNewline_code {st : State} {s : Bytes} (h : (throughNewline st s).2.code = true) :
    (throughNewline st s).1 = { last := some Byte.newline } := by
  induction s generalizing st with
  | nil => exact advance_newline h
  | cons b s ih => exact ih h

/-- The scanner looks back only for an identifier, so a newline behind it is as good as nothing. -/
theorem advance_restart (b : Byte) (rest : Bytes) :
    advance { last := some Byte.newline } b rest = advance {} b rest := rfl

theorem liveFrom_restart (s : Bytes) : liveFrom { last := some Byte.newline } s = live s := by
  cases s with
  | nil => rfl
  | cons b rest => rw [live, liveFrom_cons, liveFrom_cons, advance_restart]

/-- The verdicts on a text fall apart behind a newline that is live code. -/
theorem live_append_newline {s post : Bytes}
    (h : (live (s ++ Byte.newline :: post))[s.length]? = some true) :
    live (s ++ Byte.newline :: post) = live (s ++ [Byte.newline]) ++ live post := by
  rw [live, getElem?_liveFrom_newline, Option.some.injEq] at h
  rw [live, liveFrom_through, throughNewline_code h, liveFrom_restart]
  rfl

end Scanner

namespace Mask

/-- The mask of `s` is that of its first `c` bytes and that of the others put together. -/
def SplitsAt (s : Bytes) (c : Nat) : Prop :=
  (ofSource s).shown = (ofSource (s.take c)).shown ++ (ofSource (s.drop c)).shown ∧
    (ofSource s).code = (ofSource (s.take c)).code ++ (ofSource (s.drop c)).code

theorem splitsAt_of_isCode {s : Bytes} {c : Nat} (hc : 0 < c)
    (hnl : s[c - 1]? = some Byte.newline) (hcode : (ofSource s).isCode (c - 1) = true) :
    SplitsAt s c := by
  obtain ⟨n, rfl⟩ : ∃ n, c = n + 1 := ⟨c - 1, by omega⟩
  rw [Nat.add_sub_cancel] at hnl hcode
  obtain ⟨hlt, hget⟩ := List.getElem?_eq_some_iff.1 hnl
  have htake : s.take (n + 1) = s.take n ++ [Byte.newline] := by
    rw [List.take_add_one, hnl]
    rfl
  have hs : s = s.take n ++ Byte.newline :: s.drop (n + 1) := by
    rw [← hget, ← List.drop_eq_getElem_cons hlt, List.take_append_drop]
  have hlive : (Scanner.live (s.take n ++ Byte.newline :: s.drop (n + 1)))[(s.take n).length]? =
      some true := by
    rw [← hs, List.length_take, Nat.min_eq_left hlt.le]
    have hlen : n < (Scanner.live s).length := by simpa using hlt
    rw [isCode, code_ofSource, List.getElem?_eq_getElem hlen] at hcode
    rw [List.getElem?_eq_getElem hlen]
    exact congrArg some hcode
  -- The scanner is in no literal behind a newline that is live, so it can start afresh there.
  have hsplit := Scanner.live_append_newline hlive
  rw [← hs, ← htake] at hsplit
  simp only [SplitsAt, shown_ofSource, code_ofSource, hsplit]
  refine ⟨?_, trivial⟩
  nth_rewrite 1 [← List.take_append_drop (n + 1) s]
  exact List.zipWith_append (by simp)

/-- The scanner can be restarted behind every newline that is live code, and so at every candidate
for a cut. -/
theorem ofSource_splitsAt (s : Bytes) :
    (∀ c, 0 < c → s[c - 1]? = some Byte.newline → (ofSource s).isCode (c - 1) = true →
      SplitsAt s c) ∧
    ∀ maxDepth, ∀ k ∈ Candidate.ofMask (ofSource s) maxDepth, SplitsAt s k.offset := by
  refine ⟨fun c hc hnl hcode => splitsAt_of_isCode hc hnl hcode, fun maxDepth k hk => ?_⟩
  obtain ⟨hpos, hshown, hcode⟩ := Candidate.of_mem_ofMask hk
  refine splitsAt_of_isCode hpos ?_ ?_
  · -- Live code is shown as it is.
    rw [shown_ofSource, List.getElem?_zipWith_eq_some] at hshown
    obtain ⟨b, code, hb, hlive, hveil⟩ := hshown
    rw [code_ofSource, hlive, Option.some.injEq] at hcode
    subst hcode
    rw [hb, ← hveil]
    rfl
  · rw [isCode, hcode]
    rfl

/-- A string that is not closed ends with its line, and the text can be cut there. The line after
it closes a brace and ends in a candidate. -/
theorem ofSource_splitsAt_unclosed :
    ((ofSource [0x22, 0x7B, 0x0A, 0x7D, 0x0A]).isCode 2 = true ∧
      SplitsAt [0x22, 0x7B, 0x0A, 0x7D, 0x0A] 3) ∧
    ∃ k ∈ Candidate.ofMask (ofSource [0x22, 0x7B, 0x0A, 0x7D, 0x0A]) 3, k.offset = 5 ∧
      SplitsAt [0x22, 0x7B, 0x0A, 0x7D, 0x0A] k.offset :=
  ⟨⟨by decide, (ofSource_splitsAt _).1 3 (by decide) rfl (by decide)⟩,
    ⟨5, 115⟩, by decide, rfl, (ofSource_splitsAt _).2 3 ⟨5, 115⟩ (by decide)⟩

end Mask

end SymbolAtlas
