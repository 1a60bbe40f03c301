import Mathlib.Tactic
import SymbolAtlas.Proofs.Mask.Opaque
import SymbolAtlas.Proofs.Text.Lines
import SymbolAtlas.Proofs.Text.Utf8

/-!
# The mask goes with its text

Everything that is found in a mask is reported by its offset in the text. So a mask has to go with
its text byte by byte, line by line and, as it is text itself, character by character
(`Mask.ofSource_keepsText`).

What the scanner writes down of each byte and of each line is known (`Mask.shown_ofSource`,
`Mask.lineStarts_ofSource`). Of what it takes at once, only `Move.Takes` is used here: no newline,
no byte past the end of the text, and nothing but ASCII unless an escape is followed by a longer
character. Hence

* the scanner gets through every text, and looks at every newline (`Scanner.covers`);
* it changes its mode at ASCII bytes only, so that all bytes of a character get the same verdict
  (`Scanner.liveFrom_char`).
-/

namespace SymbolAtlas

namespace Scanner

open Bytes

/-! ### Through a text -/

variable {st : State} {b : Byte} {rest : Bytes}

/-- The state in which a scanner that starts in `st` comes to the byte at an offset. -/
def stateAt (st : State) : Bytes → Nat → State
  | b :: rest, offset + 1 => stateAt (advance st b rest).1 rest offset
  | _, _ => st

@[simp] theorem stateAt_zero (st : State) (s : Bytes) : stateAt st s 0 = st := by
  cases s <;> rfl

theorem stateAt_cons_succ (st : State) (b : Byte) (rest : Bytes) (i : Nat) :
    stateAt st (b :: rest) (i + 1) = stateAt (advance st b rest).1 rest i := rfl

theorem carries_stateAt {s : Bytes} (h : st.Carries s) (i : Nat) :
    (stateAt st s i).Carries (s.drop i) := by
  induction s generalizing st i with
  | nil =>
    rw [List.drop_nil]
    exact h
  | cons b rest ih =>
    cases i with
    | zero => exact h
    | succ i => exact ih h.advance i

/-- The verdict on a byte is given in the state in which the scanner comes to it. -/
theorem getElem?_liveFrom {s : Bytes} {i : Nat} (hb : s[i]? = some b) :
    (liveFrom st s)[i]? = some (advance (stateAt st s i) b (s.drop (i + 1))).2.code := by
  induction s generalizing st i with
  | nil => simp at hb
  | cons c rest ih =>
    rw [liveFrom_cons]
    cases i with
    | zero =>
      obtain rfl : c = b := by simpa using hb
      rfl
    | succ i => exact ih (by simpa using hb)

theorem stateAt_add (st : State) (s : Bytes) (i n : Nat) :
    stateAt st s (i + n) = stateAt (stateAt st s i) (s.drop i) n := by
  induction s generalizing st i with
  | nil => cases i <;> cases n <;> rfl
  | cons b rest ih =>
    cases i with
    | zero => simp
    | succ i =>
      rw [Nat.add_right_comm]
      exact ih _ i

theorem skip_stateAt {s : Bytes} {n : Nat} (hskip : n ≤ st.skip) (hn : n ≤ s.length) :
    (stateAt st s n).skip = st.skip - n := by
  induction s generalizing st n with
  | nil =>
    obtain rfl : n = 0 := Nat.le_zero.1 hn
    rfl
  | cons b rest ih =>
    cases n with
    | zero => rfl
    | succ n =>
      obtain ⟨skip, hst⟩ := Nat.exists_eq_add_of_le' (Nat.one_le_of_lt hskip)
      have hadvance : (advance st b rest).1.skip = skip := by simp [advance, hst]
      rw [stateAt_cons_succ, ih (by omega) (Nat.le_of_succ_le_succ hn), hadvance, hst]
      omega

/-- The scanner goes through a text token by token. Each token takes at least a byte and nothing
past the end of the text, and the next one begins right behind it. Every newline begins one. -/
structure Covers (s : Bytes) : Prop where
  verdict : ∀ i b, s[i]? = some b →
    (Mask.ofSource s).code[i]? = some (advance (stateAt {} s i) b (s.drop (i + 1))).2.code
  token : ∀ i b, s[i]? = some b → (stateAt {} s i).skip = 0 →
    0 < (step (stateAt {} s i) b (s.drop (i + 1))).width ∧
      i + (step (stateAt {} s i) b (s.drop (i + 1))).width ≤ s.length ∧
      (stateAt {} s (i + (step (stateAt {} s i) b (s.drop (i + 1))).width)).skip = 0
  newline : ∀ i, s[i]? = some Byte.newline → (stateAt {} s i).skip = 0

theorem drop_of_getElem? {s : Bytes} {i : Nat} (h : s[i]? = some b) :
    s.drop i = b :: s.drop (i + 1) := by
  obtain ⟨hlt, rfl⟩ := List.getElem?_eq_some_iff.1 h
  exact List.drop_eq_getElem_cons hlt

theorem covers (s : Bytes) : Covers s where
  verdict i b hb := by
    rw [Mask.code_ofSource]
    exact getElem?_liveFrom hb
  token i b hb hskip := by
    have htakes := step_takes (stateAt {} s i) b (s.drop (i + 1))
    have hlt := (List.getElem?_eq_some_iff.1 hb).1
    have hpos := htakes.pos
    have hfits := htakes.fits
    rw [List.length_drop] at hfits
    generalize hwidth : (step (stateAt {} s i) b (s.drop (i + 1))).width = width at hpos hfits
    obtain ⟨n, rfl⟩ := Nat.exists_eq_add_of_le' hpos
    have hadvance : (advance (stateAt {} s i) b (s.drop (i + 1))).1.skip = n := by
      simp [advance, hskip, hwidth]
    refine ⟨hpos, by omega, ?_⟩
    rw [stateAt_add, drop_of_getElem? hb, stateAt_cons_succ, skip_stateAt, hadvance, Nat.sub_self]
    · exact hadvance.ge
    · rw [List.length_drop]
      omega
  newline i hb := by
    have hcarries := (carries_stateAt (carries_of_skip_eq_zero rfl : State.Carries {} s) i).newline
    rw [drop_of_getElem? hb] at hcarries
    by_contra hne
    obtain ⟨skip, hskip⟩ := Nat.exists_eq_succ_of_ne_zero hne
    exact hcarries (by simp [hskip])

/-! ### Characters of several bytes -/

/-- A byte past ASCII changes nothing, and is live code where the scanner is in no literal. -/
theorem advance_past (hskip : st.skip = 0) (hb : 0x80 ≤ b.toNat) (rest : Bytes) :
    (advance st b rest).2.code = st.modes.isEmpty ∧ (advance st b rest).1.modes = st.modes ∧
      (advance st b rest).1.skip = 0 := by
  have hne : ∀ c : Byte, c.toNat < 0x80 → b ≠ c := by
    rintro c hc rfl
    omega
  have hnewline := hne Byte.newline (by decide)
  have hquote := hne Byte.quote (by decide)
  have hopen := hne Byte.openBrace (by decide)
  have hopening : opening? st b rest = none := by
    refine opening?_of_isPlain ?_ st rest
    simp [Byte.isPlain, hquote, hne Byte.apostrophe (by decide), hne Byte.slash (by decide),
      hne Byte.hash (by decide), hne Byte.dollar (by decide), hne Byte.atSign (by decide)]
  have hescapes : escapes b rest = false := escapes_of_ne (hne Byte.backslash (by decide)) rest
  have hstep : (step st b rest).code = st.modes.isEmpty ∧ (step st b rest).modes = st.modes ∧
      (step st b rest).width = 1 := by
    unfold step
    split
    · next hmodes => simp [hopening, hmodes]
    · next hmodes =>
      simp [hopening, hmodes, afterHoleByte, hopen, hne Byte.closeBrace (by decide)]
    · next hmodes => simp [hmodes, hnewline]
    · next hmodes => simp [hmodes, hnewline, hne Byte.star (by decide)]
    · next hmodes => simp [hmodes, hescapes, hnewline, hne Byte.apostrophe (by decide)]
    · next kind outer hmodes =>
      cases kind <;>
        simp [hmodes, stringStep, rawStep, quotedStep, hnewline, hquote, hopen, hescapes]
  simp [advance, hskip, hstep]

theorem liveFrom_past {st : State} (hskip : st.skip = 0) {t : Bytes} (ht : ∀ b ∈ t, 0x80 ≤ b.toNat)
    (rest : Bytes) :
    ∃ st', liveFrom st (t ++ rest) =
      List.replicate t.length st.modes.isEmpty ++ liveFrom st' rest ∧ st'.skip = 0 := by
  induction t generalizing st with
  | nil => exact ⟨st, rfl, hskip⟩
  | cons b t ih =>
    obtain ⟨hcode, hmodes, hskip'⟩ :=
      advance_past hskip (ht b List.mem_cons_self) (t ++ rest)
    obtain ⟨st', hlive, hst'⟩ := ih hskip' fun c hc => ht c (List.mem_cons_of_mem b hc)
    refine ⟨st', ?_, hst'⟩
    rw [List.cons_append, liveFrom_cons, hlive, hcode, hmodes, List.length_cons,
      List.replicate_succ, List.cons_append]

/-- All bytes of a character get the same verdict, also of one that is escaped. -/
theorem liveFrom_char {c : Char} (h : st.Carries (String.utf8EncodeChar c ++ rest)) :
    ∃ code st', liveFrom st (String.utf8EncodeChar c ++ rest) =
      List.replicate c.utf8Size code ++ liveFrom st' rest ∧ st'.Carries rest := by
  rw [← String.length_utf8EncodeChar]
  by_cases hc : c.toNat < 0x80
  · rw [Utf8.encodeChar_of_lt hc] at h ⊢
    exact ⟨_, _, liveFrom_cons _ _ _, h.advance⟩
  · have hpast : ∀ b ∈ String.utf8EncodeChar c, 0x80 ≤ b.toNat :=
      fun b hb => Utf8.le_of_mem_encodeChar (Nat.not_lt.1 hc) hb
    cases hskip : st.skip with
    | zero =>
      obtain ⟨st', hlive, hst'⟩ := liveFrom_past hskip hpast rest
      exact ⟨_, st', hlive, carries_of_skip_eq_zero hst'⟩
    | succ skip =>
      -- Only an escape goes on with such a character, and it takes no more than its first byte.
      cases hbytes : String.utf8EncodeChar c with
      | nil => exact absurd hbytes String.utf8EncodeChar_ne_nil
      | cons b more =>
        rw [hbytes] at h hpast
        obtain ⟨hone, hmodes⟩ : st.skip = 1 ∧ st.modes ≠ [] := by
          refine h.ascii.resolve_left fun hascii => ?_
          have hlt := hascii b (by simp [hskip])
          exact absurd (hpast b List.mem_cons_self) (Nat.not_le.2 hlt)
        have hadvance : advance st b (more ++ rest) =
            ({ st with skip := 0, last := some b }, ⟨Shade.blank.write b, false, false⟩) := by
          simp [advance, hone]
        have hready : ({ st with skip := 0, last := some b } : State).skip = 0 := rfl
        obtain ⟨st', hlive, hst'⟩ := liveFrom_past hready
          (fun d hd => hpast d (List.mem_cons_of_mem b hd)) rest
        refine ⟨false, st', ?_, carries_of_skip_eq_zero hst'⟩
        rw [List.cons_append, liveFrom_cons, hadvance, hlive,
          List.isEmpty_eq_false_iff.2 hmodes, List.length_cons, List.replicate_succ,
          List.cons_append]

theorem exists_liveFrom_encode {cs : List Char} (h : st.Carries (Utf8.encode cs)) :
    ∃ verdicts : List Bool, verdicts.length = cs.length ∧
      liveFrom st (Utf8.encode cs) =
        (List.zipWith (fun c code => List.replicate c.utf8Size code) cs verdicts).flatten := by
  induction cs generalizing st with
  | nil => exact ⟨[], rfl, rfl⟩
  | cons c cs ih =>
    rw [Utf8.encode_cons] at h ⊢
    obtain ⟨code, st', hlive, hst'⟩ := liveFrom_char h
    obtain ⟨verdicts, hlength, hrest⟩ := ih hst'
    refine ⟨code :: verdicts, by simp [hlength], ?_⟩
    rw [hlive, hrest, List.zipWith_cons_cons, List.flatten_cons]

end Scanner

namespace Mask

/-- What is shown of a character: live code as it is, of the rest only the newlines, and a space for
each byte of all other characters. -/
def veilChar (c : Char) (code : Bool) : List Char :=
  if code || c == '\n' then [c] else List.replicate c.utf8Size ' '

theorem newline_not_mem_encodeChar {c : Char} (hc : c ≠ '\n') :
    Byte.newline ∉ String.utf8EncodeChar c := by
  have hcount : (String.utf8EncodeChar c).count Byte.newline = [c].count '\n' :=
    Utf8.count_encodeChar (a := '\n') (by decide) c
  rw [← List.count_eq_zero, hcount, List.count_eq_zero]
  simpa using hc.symm

theorem encode_spaces (n : Nat) :
    Utf8.encode (List.replicate n ' ') = List.replicate n Byte.space := by
  induction n with
  | zero => rfl
  | succ n ih =>
    rw [List.replicate_succ, Utf8.encode_cons, ih, List.replicate_succ]
    rfl

theorem zipWith_veil_encodeChar (c : Char) (code : Bool) :
    List.zipWith veil (String.utf8EncodeChar c) (List.replicate c.utf8Size code) =
      Utf8.encode (veilChar c code) := by
  rw [← String.length_utf8EncodeChar, zipWith_veil_replicate]
  by_cases hshown : (code || c == '\n') = true
  · have hsame : ∀ b ∈ String.utf8EncodeChar c, veil b code = b := by
      intro b hb
      rcases Bool.or_eq_true_iff.1 hshown with rfl | hc
      · rfl
      · obtain rfl := beq_iff_eq.1 hc
        obtain rfl := List.mem_singleton.1 hb
        simp [veil]
    rw [List.map_congr_left hsame, List.map_id', veilChar, if_pos hshown, Utf8.encode,
      List.flatMap_singleton]
  · obtain ⟨rfl, hc⟩ : code = false ∧ c ≠ '\n' := by simpa using hshown
    have hspace : ∀ b ∈ String.utf8EncodeChar c, veil b false = Byte.space := by
      intro b hb
      have hne : b ≠ Byte.newline := fun h => newline_not_mem_encodeChar hc (h ▸ hb)
      simp [veil, hne]
    rw [List.map_congr_left hspace, List.map_const', veilChar, if_neg hshown, encode_spaces,
      String.length_utf8EncodeChar]

theorem zipWith_veil_encode {cs : List Char} {verdicts : List Bool}
    (h : verdicts.length = cs.length) :
    List.zipWith veil (Utf8.encode cs)
        (List.zipWith (fun c code => List.replicate c.utf8Size code) cs verdicts).flatten =
      Utf8.encode (List.zipWith veilChar cs verdicts).flatten := by
  induction cs generalizing verdicts with
  | nil => rfl
  | cons c cs ih =>
    cases verdicts with
    | nil => cases h
    | cons code verdicts =>
      rw [List.zipWith_cons_cons, List.zipWith_cons_cons, List.flatten_cons, List.flatten_cons,
        Utf8.encode_cons, Utf8.encode_append, List.zipWith_append (by simp),
        zipWith_veil_encodeChar, ih (Nat.succ.inj h)]

/-- The mask goes with the text byte by byte and line by line. -/
structure Aligned (s : Bytes) (m : Mask) : Prop where
  length_shown : m.shown.length = s.length
  length_code : m.code.length = s.length
  shown : ∀ i b, s[i]? = some b → m.shown[i]? =
    some (if m.isCode i then b else if b = Byte.newline then Byte.newline else Byte.space)
  lineStarts_increasing : m.lineStarts.Pairwise (· < ·)
  /-- A newline at the end begins no line. -/
  mem_lineStarts : ∀ o, o ∈ m.lineStarts ↔
    o = 0 ∨ (0 < o ∧ o < s.length ∧ s[o - 1]? = some Byte.newline)
  lineOf : ∀ o < s.length, m.lineOf o = 1 + (s.take o).count Byte.newline

/-- The mask holds each character of a text as a whole or not at all. -/
def KeepsCharacters (cs : List Char) (m : Mask) : Prop :=
  ∃ verdicts : List Bool, verdicts.length = cs.length ∧
    m.code = (List.zipWith (fun c code => List.replicate c.utf8Size code) cs verdicts).flatten ∧
    Utf8.decode? m.shown = some (List.zipWith veilChar cs verdicts).flatten

theorem keepsCharacters_ofSource (cs : List Char) :
    (ofSource (Utf8.encode cs)).KeepsCharacters cs := by
  obtain ⟨verdicts, hlength, hlive⟩ := Scanner.exists_liveFrom_encode
    (Scanner.carries_of_skip_eq_zero rfl : Scanner.State.Carries {} (Utf8.encode cs))
  refine ⟨verdicts, hlength, (code_ofSource _).trans hlive, ?_⟩
  rw [shown_ofSource, Scanner.live, hlive, zipWith_veil_encode hlength, Utf8.decode?,
    Utf8.decodeOnto_encode, List.reverse_nil, List.nil_append]

theorem getElem?_shown_ofSource {s : Bytes} {i : Nat} {b : Byte} (hb : s[i]? = some b) :
    (ofSource s).shown[i]? = some (veil b ((ofSource s).isCode i)) := by
  obtain ⟨code, hcode⟩ : ∃ code, (Scanner.live s)[i]? = some code := by
    refine ⟨_, List.getElem?_eq_getElem ?_⟩
    simpa using (List.getElem?_eq_some_iff.1 hb).1
  simp [shown_ofSource, isCode, code_ofSource, List.getElem?_zipWith, hb, hcode]

theorem aligned_ofSource (s : Bytes) : (ofSource s).Aligned s where
  length_shown := length_shown_ofSource s
  length_code := length_code_ofSource s
  shown i b hb := by
    rw [getElem?_shown_ofSource hb, veil]
    by_cases hcode : (ofSource s).isCode i = true
    · simp [hcode]
    · by_cases hnewline : b = Byte.newline <;> simp [hcode, hnewline]
  lineStarts_increasing := by
    rw [lineStarts_ofSource]
    refine .cons (fun e he => ?_) ((Division.pairwise_afterNewlines 0 s).filter _)
    exact (Division.mem_afterNewlines.1 (List.mem_filter.1 he).1).1
  mem_lineStarts o := by
    simp only [lineStarts_ofSource, Bytes.lineStarts, List.mem_cons, List.mem_filter,
      Division.mem_afterNewlines, decide_eq_true_eq, Nat.zero_add]
    refine or_congr_right ?_
    constructor
    · rintro ⟨⟨hpos, hget⟩, hlt⟩
      exact ⟨hpos, hlt, hget⟩
    · rintro ⟨hpos, hlt, hget⟩
      exact ⟨⟨hpos, hget⟩, hlt⟩
  lineOf o ho := by
    have hcount : ((Bytes.afterNewlines 0 s).filter (· < s.length)).countP (· ≤ o) =
        (s.take o).count Byte.newline := by
      have hrow := Division.countP_afterNewlines 0 o s
      rw [Nat.zero_add] at hrow
      rw [List.countP_filter, ← hrow]
      refine List.countP_congr fun e _ => ?_
      simp only [Bool.and_eq_true, decide_eq_true_eq]
      omega
    rw [lineOf, lineStarts_ofSource, Bytes.lineStarts, List.countP_cons_of_pos (by simp), hcount]
    omega

/-- The mask of a text is a text of the same length, in which live code and newlines stand where
they stood and spaces stand for all other bytes. No character is cut in two, and lines and their
numbers are those of the text. The scanner reaches the end of the text and passes no newline. -/
theorem ofSource_keepsText (text : String) :
    Scanner.Covers (.ofString text) ∧ (ofSource (.ofString text)).Aligned (.ofString text) ∧
      (ofSource (.ofString text)).KeepsCharacters text.toList := by
  refine ⟨Scanner.covers _, aligned_ofSource _, ?_⟩
  rw [Utf8.ofString_eq_encode]
  exact keepsCharacters_ofSource text.toList

end Mask

end SymbolAtlas
