import Mathlib.Data.List.TakeWhile
import Mathlib.Tactic
import SymbolAtlas.Mask.Basic
import SymbolAtlas.Proofs.Text.Lines

/-!
# What the scanner writes down

The scanner blanks a text token by token, each kind of token in its own way, and notes a line where
a token begins with a newline. Its transcript has a closed form nevertheless, given the verdicts on
the bytes (`Scanner.live`):

* of each byte there is written what `Mask.veil` leaves of it (`Mask.shown_ofSource`), because each
  token agrees with its verdict (`Scanner.step_writes`);
* the lines are those of the text (`Mask.lineStarts_ofSource`), because the scanner takes several
  bytes at once, but no newline among them (`Scanner.step_takes`), and so looks at every newline.
-/

namespace SymbolAtlas

namespace Scanner

open Bytes

/-! ### What a token takes -/

/-- What a token takes of `rest`, the bytes behind its first one. It holds no newline there and ends
with the text at the latest. All of it is ASCII, except that an escape may take the first byte of a
longer character; the scanner is inside a literal then. -/
structure Move.Takes (move : Move) (rest : Bytes) : Prop where
  pos : 0 < move.width
  fits : move.width ≤ rest.length + 1
  newline : Byte.newline ∉ rest.take (move.width - 1)
  ascii : (∀ b ∈ rest.take (move.width - 1), b.toNat < 0x80) ∨ (move.width = 2 ∧ move.modes ≠ [])

variable {st : State} {b : Byte} {rest : Bytes} {move : Move}

theorem takes_of_width_eq_one (h : move.width = 1) : move.Takes rest := by
  constructor <;> simp [h]

theorem takes_of_ascii (hpos : 0 < move.width) (hfits : move.width ≤ rest.length + 1)
    (h : ∀ b ∈ rest.take (move.width - 1), b ≠ Byte.newline ∧ b.toNat < 0x80) :
    move.Takes rest where
  pos := hpos
  fits := hfits
  newline hmem := (h _ hmem).1 rfl
  ascii := .inl fun b hb => (h b hb).2

/-- A token of two bytes takes the one behind it. -/
theorem takes_of_head? {c : Byte} (hwidth : move.width = 2) (hhead : rest.head? = some c)
    (hc : c ≠ Byte.newline) (hascii : c.toNat < 0x80 ∨ move.modes ≠ []) : move.Takes rest := by
  obtain ⟨tail, rfl⟩ := List.head?_eq_some_iff.1 hhead
  constructor
  · omega
  · simp [hwidth]
  · simpa [hwidth] using hc.symm
  · exact hascii.imp (fun hlt => by simpa [hwidth] using hlt) fun hne => ⟨hwidth, hne⟩

theorem runLength_cons_self (b : Byte) (s : Bytes) : runLength b (b :: s) = runLength b s + 1 := by
  simp [runLength]

theorem of_mem_take_takeWhile {p : Byte → Bool} {s : Bytes} {n : Nat} {c : Byte}
    (hn : n ≤ (s.takeWhile p).length) (hc : c ∈ s.take n) : p c = true := by
  have hfront : s.take n <+: s.takeWhile p :=
    List.prefix_of_prefix_length_le (List.take_prefix n s) (List.takeWhile_prefix p)
      (by rw [List.length_take]; omega)
  exact List.mem_takeWhile_imp (hfront.subset hc)

theorem eq_of_mem_take_runLength {a c : Byte} {s : Bytes} {n : Nat} (hn : n ≤ runLength a s)
    (hc : c ∈ s.take n) : c = a :=
  beq_iff_eq.1 (of_mem_take_takeWhile (p := (· == a)) hn hc)

/-- A run of one byte is a token. -/
theorem takes_run (hwidth : move.width = runLength b (b :: rest)) (hb : b ≠ Byte.newline)
    (hascii : b.toNat < 0x80) : move.Takes rest := by
  have hle : runLength b rest ≤ rest.length := (List.takeWhile_prefix _).length_le
  rw [runLength_cons_self] at hwidth
  refine takes_of_ascii ?_ ?_ ?_
  · omega
  · omega
  · intro c hc
    rw [hwidth, Nat.add_sub_cancel] at hc
    rw [eq_of_mem_take_runLength le_rfl hc]
    exact ⟨hb, hascii⟩

/-- The delimiter that opens a string is made of dollar and at signs and quotes. -/
theorem stringAt?_takes {last : Option Byte} {s : Bytes} {kind : StringKind} {width : Nat}
    (h : stringAt? last s = some (kind, width)) :
    0 < width ∧ width ≤ s.length ∧
      ∀ c ∈ s.take width, c = Byte.dollar ∨ c = Byte.atSign ∨ c = Byte.quote := by
  unfold stringAt? at h
  simp only at h
  generalize hmarks : s.takeWhile (fun b => b == Byte.dollar || b == Byte.atSign) = marks at h
  -- Whatever the kind, behind the signs come some of the quotes that follow them.
  obtain ⟨quotes, hpos, hquotes, rfl⟩ : ∃ quotes, 0 < quotes ∧
      quotes ≤ runLength Byte.quote (s.drop marks.length) ∧ width = marks.length + quotes := by
    split at h
    · cases h
    next hnone =>
    split at h
    · cases h
    split at h
    · next hraw =>
      simp only [Option.some.injEq, Prod.mk.injEq] at h
      simp only [Bool.and_eq_true, decide_eq_true_eq] at hraw
      exact ⟨_, by omega, le_rfl, h.2.symm⟩
    · simp only [Option.some.injEq, Prod.mk.injEq] at h
      simp only [Bool.or_eq_true, beq_iff_eq, decide_eq_true_eq, not_or] at hnone
      exact ⟨1, Nat.one_pos, by omega, h.2.symm⟩
  have hrun : runLength Byte.quote (s.drop marks.length) ≤ (s.drop marks.length).length :=
    (List.takeWhile_prefix _).length_le
  have hle : marks.length ≤ s.length := hmarks ▸ (List.takeWhile_prefix _).length_le
  rw [List.length_drop] at hrun
  refine ⟨by omega, by omega, fun c hc => ?_⟩
  rw [List.take_add, List.mem_append] at hc
  rcases hc with hc | hc
  · have hsign := of_mem_take_takeWhile (congrArg List.length hmarks).ge hc
    rw [Bool.or_eq_true, beq_iff_eq, beq_iff_eq] at hsign
    exact hsign.imp_right .inl
  · exact .inr (.inr (eq_of_mem_take_runLength hquotes hc))

theorem opening?_takes (h : opening? st b rest = some move) : move.Takes rest := by
  unfold opening? at h
  split at h
  · next hline =>
    obtain rfl := Option.some.inj h
    rw [Bool.and_eq_true, beq_iff_eq, beq_iff_eq] at hline
    exact takes_of_head? rfl hline.2 (by decide) (.inl (by decide))
  split at h
  · next hblock =>
    obtain rfl := Option.some.inj h
    rw [Bool.and_eq_true, beq_iff_eq, beq_iff_eq] at hblock
    exact takes_of_head? rfl hblock.2 (by decide) (.inl (by decide))
  split at h
  · obtain rfl := Option.some.inj h
    exact takes_of_width_eq_one rfl
  split at h
  · next kind width hstring =>
    obtain rfl := Option.some.inj h
    obtain ⟨hpos, hfits, hbytes⟩ := stringAt?_takes hstring
    obtain ⟨n, rfl⟩ := Nat.exists_eq_add_of_lt hpos
    refine takes_of_ascii hpos hfits fun c hc => ?_
    have hmem : c ∈ (b :: rest).take (0 + n + 1) := List.mem_cons_of_mem b (by simpa using hc)
    rcases hbytes c hmem with rfl | rfl | rfl <;> decide
  · split at h
    · obtain rfl := Option.some.inj h
      exact takes_of_width_eq_one rfl
    · cases h

theorem rawStep_takes (outer : List Mode) (quotes dollars : Nat) (b : Byte) (rest : Bytes)
    (seen : Bool) :
    Move.Takes { modes := (rawStep outer quotes dollars b rest).1, lineHasCode := seen,
                 width := (rawStep outer quotes dollars b rest).2 } rest := by
  unfold rawStep
  simp only
  split
  · next hb =>
    obtain rfl := beq_iff_eq.1 hb
    exact takes_run rfl (by decide) (by decide)
  split
  · next hb =>
    obtain rfl := beq_iff_eq.1 (Bool.and_eq_true_iff.1 hb).2
    exact takes_run rfl (by decide) (by decide)
  · exact takes_of_width_eq_one rfl

theorem exists_of_escapes (h : escapes b rest = true) :
    ∃ c, rest.head? = some c ∧ c ≠ Byte.newline := by
  obtain ⟨c, hc, hne⟩ := (Option.any_eq_true _ _).1 (Bool.and_eq_true_iff.1 h).2
  exact ⟨c, hc, bne_iff_ne.1 hne⟩

theorem quotedStep_takes (outer : List Mode) (kind : StringKind) (b : Byte) (rest : Bytes)
    (seen : Bool) :
    Move.Takes { modes := (quotedStep outer kind b rest).1, lineHasCode := seen,
                 width := (quotedStep outer kind b rest).2 } rest := by
  unfold quotedStep
  simp only
  split
  · next hescape =>
    obtain ⟨c, hc, hne⟩ := exists_of_escapes (Bool.and_eq_true_iff.1 hescape).2
    exact takes_of_head? rfl hc hne (.inr (List.cons_ne_nil _ _))
  split
  · next hquotes =>
    have hhead := beq_iff_eq.1 (Bool.and_eq_true_iff.1 hquotes).2
    exact takes_of_head? rfl hhead (by decide) (.inl (by decide))
  split
  · split
    · next hbrace =>
      exact takes_of_head? rfl (beq_iff_eq.1 hbrace) (by decide) (.inl (by decide))
    · exact takes_of_width_eq_one rfl
  split
  · exact takes_of_width_eq_one rfl
  · exact takes_of_width_eq_one rfl

/-- The token that begins at a byte takes that byte, no newline behind it, and nothing past the end
of the text. -/
theorem step_takes (st : State) (b : Byte) (rest : Bytes) : (step st b rest).Takes rest := by
  have hopening {otherwise : Move} (h : otherwise.width = 1) :
      ((opening? st b rest).getD otherwise).Takes rest := by
    cases hmove : opening? st b rest with
    | none => exact takes_of_width_eq_one h
    | some move => exact opening?_takes hmove
  unfold step
  split
  · exact hopening rfl
  · exact hopening rfl
  · split <;> exact takes_of_width_eq_one rfl
  · split
    · next hclose =>
      have hhead := beq_iff_eq.1 (Bool.and_eq_true_iff.1 hclose).2
      exact takes_of_head? rfl hhead (by decide) (.inl (by decide))
    · split <;> exact takes_of_width_eq_one rfl
  · next hmodes =>
    split
    · next hescape =>
      obtain ⟨c, hc, hne⟩ := exists_of_escapes hescape
      exact takes_of_head? rfl hc hne (.inr (by simp [hmodes]))
    · split <;> exact takes_of_width_eq_one rfl
  · unfold stringStep
    split
    · exact rawStep_takes _ _ _ _ _ _
    · split
      · exact takes_of_width_eq_one rfl
      · exact quotedStep_takes _ _ _ _ _

/-! ### Between two bytes -/

/-- What a scanner that comes to `s` still has to take of the token before. -/
structure State.Carries (st : State) (s : Bytes) : Prop where
  fits : st.skip ≤ s.length
  newline : Byte.newline ∉ s.take st.skip
  ascii : (∀ b ∈ s.take st.skip, b.toNat < 0x80) ∨ (st.skip = 1 ∧ st.modes ≠ [])

theorem carries_of_skip_eq_zero {s : Bytes} (h : st.skip = 0) : st.Carries s := by
  constructor <;> simp [h]

theorem State.Carries.advance (h : st.Carries (b :: rest)) :
    (advance st b rest).1.Carries rest := by
  obtain ⟨hfits, hnewline, hascii⟩ := h
  cases hskip : st.skip with
  | zero =>
    have htakes := step_takes st b rest
    have hpos := htakes.pos
    have hwidth := htakes.fits
    simp only [Scanner.advance, hskip]
    refine ⟨?_, htakes.newline, htakes.ascii.imp_right fun htwo => ⟨?_, htwo.2⟩⟩
    · show (step st b rest).width - 1 ≤ rest.length
      omega
    · show (step st b rest).width - 1 = 1
      have hone := htwo.1
      omega
  | succ skip =>
    simp only [hskip, List.take_succ_cons, List.length_cons] at hfits hnewline hascii
    simp only [Scanner.advance, hskip]
    constructor
    · exact Nat.le_of_succ_le_succ hfits
    · exact fun hmem => hnewline (List.mem_cons_of_mem _ hmem)
    · rcases hascii with hascii | ⟨hone, -⟩
      · exact .inl fun c hc => hascii c (List.mem_cons_of_mem _ hc)
      · obtain rfl : skip = 0 := by omega
        exact .inl (by simp)

/-! ### Verdicts -/

/-- The verdicts on `s` of a scanner in state `st`. -/
def liveFrom (st : State) : Bytes → List Bool
  | [] => []
  | b :: rest => (advance st b rest).2.code :: liveFrom (advance st b rest).1 rest

/-- For every byte of `s`, whether it is live code. -/
def live (s : Bytes) : List Bool :=
  liveFrom {} s

theorem liveFrom_cons (st : State) (b : Byte) (rest : Bytes) :
    liveFrom st (b :: rest) =
      (advance st b rest).2.code :: liveFrom (advance st b rest).1 rest := rfl

@[simp] theorem length_liveFrom (st : State) (s : Bytes) : (liveFrom st s).length = s.length := by
  induction s generalizing st with
  | nil => rfl
  | cons b rest ih => rw [liveFrom_cons, List.length_cons, ih, List.length_cons]

@[simp] theorem length_live (s : Bytes) : (live s).length = s.length :=
  length_liveFrom {} s

theorem code_scanFrom (t : Transcript) (offset : Nat) (st : State) (s : Bytes) :
    (scanFrom t offset st s).code = (liveFrom st s).reverse ++ t.code := by
  induction s generalizing t offset st with
  | nil => rfl
  | cons b rest ih =>
    rw [scanFrom, ih, liveFrom_cons, List.reverse_cons, List.append_assoc]
    rfl

end Scanner

namespace Mask

/-- What is shown of a byte: live code as it is, of the rest only the newlines. -/
def veil (b : Byte) (code : Bool) : Byte :=
  if code || b == Byte.newline then b else Byte.space

theorem veil_newline (code : Bool) : veil Byte.newline code = Byte.newline := by
  simp [veil]

theorem veil_of_ne {b : Byte} (hb : b ≠ Byte.newline) : veil b false = Byte.space := by
  simp [veil, hb]

theorem write_blank (b : Byte) : Scanner.Shade.blank.write b = veil b false := by
  simp [Scanner.Shade.write, veil]

end Mask

namespace Scanner

open Bytes Mask

variable {st : State} {b : Byte} {rest : Bytes} {move : Move}

/-! ### What is written of a byte -/

/-- The token that begins at `b` writes it as its verdict demands. -/
def Move.Writes (move : Move) (b : Byte) : Prop := move.shade.write b = veil b move.code

theorem writes_of_blank (hshade : move.shade = .blank) (hcode : move.code = false) :
    move.Writes b := by
  rw [Move.Writes, hshade, hcode, write_blank]

theorem writes_of_erase (hshade : move.shade = .erase) (hcode : move.code = false)
    (hb : b ≠ Byte.newline) : move.Writes b := by
  rw [Move.Writes, hshade, hcode, veil_of_ne hb]
  rfl

theorem writes_of_keep (hshade : move.shade = .keep) (h : move.code = true ∨ b = Byte.newline) :
    move.Writes b := by
  rw [Move.Writes, hshade]
  rcases h with hcode | rfl
  · rw [hcode]
    rfl
  · exact (veil_newline _).symm

theorem opening?_writes (h : opening? st b rest = some move) : move.Writes b := by
  unfold opening? at h
  split at h
  · obtain rfl := Option.some.inj h
    exact writes_of_blank rfl rfl
  split at h
  · obtain rfl := Option.some.inj h
    exact writes_of_blank rfl rfl
  split at h
  · obtain rfl := Option.some.inj h
    exact writes_of_blank rfl rfl
  split at h
  · obtain rfl := Option.some.inj h
    exact writes_of_blank rfl rfl
  · split at h
    · obtain rfl := Option.some.inj h
      exact writes_of_blank rfl rfl
    · cases h

theorem leaveAtNewline_writes (outer : List Mode) (hb : (b == Byte.newline) = true) :
    (leaveAtNewline outer).Writes b :=
  writes_of_keep rfl (.inr (beq_iff_eq.1 hb))

/-- Every token writes the byte it begins at as it is if that is live code, and else blanks it
unless it is a newline. -/
theorem step_writes (st : State) (b : Byte) (rest : Bytes) : (step st b rest).Writes b := by
  have hopening {otherwise : Move} (h : otherwise.Writes b) :
      ((opening? st b rest).getD otherwise).Writes b := by
    cases hmove : opening? st b rest with
    | none => exact h
    | some move => exact opening?_writes hmove
  unfold step
  split
  · exact hopening (writes_of_keep rfl (.inl rfl))
  · exact hopening (writes_of_blank rfl rfl)
  · split
    · next hnewline => exact leaveAtNewline_writes _ hnewline
    · next hb => exact writes_of_erase rfl rfl (mt beq_iff_eq.2 hb)
  · split
    · exact writes_of_blank rfl rfl
    · split
      · next hnewline => exact writes_of_keep rfl (.inr (beq_iff_eq.1 hnewline))
      · next hb => exact writes_of_erase rfl rfl (mt beq_iff_eq.2 hb)
  · split
    · exact writes_of_blank rfl rfl
    · split
      · next hnewline => exact leaveAtNewline_writes _ hnewline
      · next hb => exact writes_of_erase rfl rfl (mt beq_iff_eq.2 hb)
  · unfold stringStep
    split
    · exact writes_of_blank rfl rfl
    · split
      · next hnewline => exact leaveAtNewline_writes _ (Bool.and_eq_true_iff.1 hnewline).1
      · exact writes_of_blank rfl rfl

theorem shown_advance (st : State) (b : Byte) (rest : Bytes) :
    (advance st b rest).2.shown = veil b (advance st b rest).2.code := by
  unfold advance
  split
  · exact write_blank b
  · exact step_writes st b rest

theorem shown_scanFrom (t : Transcript) (offset : Nat) (st : State) (s : Bytes) :
    (scanFrom t offset st s).shown =
      (List.zipWith veil s (liveFrom st s)).reverse ++ t.shown := by
  induction s generalizing t offset st with
  | nil => rfl
  | cons b rest ih =>
    rw [scanFrom, ih, liveFrom_cons, List.zipWith_cons_cons, List.reverse_cons, List.append_assoc,
      ← shown_advance]
    rfl

/-! ### Where lines begin -/

/-- A newline is never passed over, so a line is noted behind each. -/
theorem endsLine_advance (h : st.Carries (b :: rest)) :
    (advance st b rest).2.endsLine = (b == Byte.newline) := by
  cases hskip : st.skip with
  | zero => simp only [advance, hskip]
  | succ skip =>
    have hb : b ≠ Byte.newline := by
      rintro rfl
      exact h.newline (by simp [hskip])
    simp only [advance, hskip]
    exact (beq_false_of_ne hb).symm

theorem lineStarts_scanFrom (t : Transcript) (offset : Nat) {s : Bytes} (h : st.Carries s) :
    (scanFrom t offset st s).lineStarts = (afterNewlines offset s).reverse ++ t.lineStarts := by
  induction s generalizing t offset st with
  | nil => rfl
  | cons b rest ih =>
    rw [scanFrom, ih _ _ h.advance, Division.afterNewlines_cons, Transcript.add, endsLine_advance h]
    by_cases hb : b = Byte.newline <;> simp [hb]

end Scanner

namespace Mask

theorem code_ofSource (s : Bytes) : (ofSource s).code = Scanner.live s := by
  simp [ofSource, Scanner.scan, Scanner.code_scanFrom, Scanner.live]

/-- The mask shows the live code of a text and its newlines. -/
theorem shown_ofSource (s : Bytes) :
    (ofSource s).shown = List.zipWith veil s (Scanner.live s) := by
  simp [ofSource, Scanner.scan, Scanner.shown_scanFrom, Scanner.live]

theorem dropEnd_reverse {n : Nat} {starts : List Nat} (hsorted : starts.Pairwise (· < ·))
    (hle : ∀ e ∈ starts, e ≤ n) (hpos : 0 < n) :
    dropEnd n (starts.reverse ++ [0]) = (starts.filter (· < n)).reverse ++ [0] := by
  rcases List.eq_nil_or_concat' starts with rfl | ⟨earlier, last, rfl⟩
  · simp [dropEnd, hpos.ne]
  · -- All but the last lie before the end, as they lie before the last.
    have hearlier : earlier.filter (· < n) = earlier := by
      refine List.filter_eq_self.2 fun e he => decide_eq_true ?_
      have hlt := (List.pairwise_append.1 hsorted).2.2 e he last List.mem_cons_self
      exact hlt.trans_le (hle last (by simp))
    have hlast := hle last (by simp)
    rw [List.filter_append, hearlier]
    by_cases hend : last = n
    · simp [dropEnd, hend, hpos]
    · have hlt : last < n := by omega
      simp [dropEnd, hend, hlt]

/-- The lines of the mask are those of the text. -/
theorem lineStarts_ofSource (s : Bytes) : (ofSource s).lineStarts = s.lineStarts := by
  have hscan : (Scanner.scan s).lineStarts = (Bytes.afterNewlines 0 s).reverse ++ [0] :=
    Scanner.lineStarts_scanFrom {} 0 (Scanner.carries_of_skip_eq_zero rfl)
  show (dropEnd s.length (Scanner.scan s).lineStarts).reverse = s.lineStarts
  rw [hscan]
  rcases Nat.eq_zero_or_pos s.length with hzero | hpos
  · rw [List.length_eq_zero_iff.1 hzero]
    rfl
  · have hle : ∀ e ∈ Bytes.afterNewlines 0 s, e ≤ s.length := by
      intro e he
      obtain ⟨hfirst, hget⟩ := Division.mem_afterNewlines.1 he
      have hlt := (List.getElem?_eq_some_iff.1 hget).1
      omega
    rw [dropEnd_reverse (Division.pairwise_afterNewlines 0 s) hle hpos, List.reverse_append,
      List.reverse_reverse]
    rfl

end Mask

end SymbolAtlas
