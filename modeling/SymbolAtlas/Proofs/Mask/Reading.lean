import Mathlib.Tactic
import SymbolAtlas.Proofs.Mask.Lexemes
import SymbolAtlas.Proofs.Mask.Restart

/-!
# Reading comments and literals

Runs of the scanner over the pieces that a text is made of, in front of any rest.

* `Scanner.Reads` is a run over a part of a text, and `Reads.append` puts two of them together.
* `Scanner.reads_token` makes a run of a single step. There is one such run for each way to open,
  continue and close a comment or a literal.
* `Scanner.reads_code`, `Scanner.reads_lineComment`, `Scanner.hides_blockComment` and
  `Scanner.hides_raw` read elements that hold no others. `Scanner.hides_literal` reads a literal
  whose parts can be read.
-/

namespace SymbolAtlas

namespace Quoting

open Scanner

/-- The kind of string that the literal is, unless it is a character. -/
def kind? : Quoting → Option StringKind
  | .character => none
  | .regular => some .regular
  | .verbatim => some .verbatim
  | .interpolated => some .interpolated
  | .interpolatedVerbatim => some .interpolatedVerbatim

/-- The mode of the scanner inside the literal. -/
def mode (q : Quoting) : Mode := (q.kind?.map Mode.string).getD .character

variable {q : Quoting} {kind : StringKind}

theorem eq_character (hq : q.kind? = none) : q = .character := by
  cases q <;> simp [kind?] at hq ⊢

theorem exists_kind_eq (hq : q ≠ .character) : ∃ kind, q.kind? = some kind := by
  cases hkind : q.kind? with
  | none => exact absurd (eq_character hkind) hq
  | some kind => exact ⟨kind, rfl⟩

theorem mode_eq (hq : q.kind? = some kind) : q.mode = .string kind := by
  rw [mode, hq]
  rfl

theorem mark_eq (hq : q.kind? = some kind) : q.mark = Byte.quote := by
  cases q <;> simp [kind?, mark] at hq ⊢

theorem isVerbatim_eq (hq : q.kind? = some kind) : kind.isVerbatim = q.isVerbatim := by
  cases q <;> cases hq <;> rfl

theorem isInterpolated_eq (hq : q.kind? = some kind) : kind.isInterpolated = q.isInterpolated := by
  cases q <;> cases hq <;> rfl

end Quoting

namespace Scanner

open Bytes

/-! ### Runs -/

/-- In modes `ms` and behind the byte `last`, the scanner reads `t` in front of `rest` with the
verdicts `vs`, and is in modes `ms'` then. -/
def Reads (ms : List Mode) (last : Option Byte) (t rest : Bytes) (vs : List Bool)
    (ms' : List Mode) : Prop :=
  ∀ seen, ∃ seen', liveFrom ⟨ms, seen, 0, last⟩ (t ++ rest) =
    vs ++ liveFrom ⟨ms', seen', 0, t.getLast?.or last⟩ rest

/-- The scanner reads `t` without finding live code. -/
abbrev Hides (ms : List Mode) (last : Option Byte) (t rest : Bytes) (ms' : List Mode) : Prop :=
  Reads ms last t rest (List.replicate t.length false) ms'

variable {ms ms' ms'' : List Mode} {last : Option Byte} {t t' rest : Bytes} {vs vs' : List Bool}

theorem reads_nil (ms : List Mode) (last : Option Byte) (rest : Bytes) :
    Reads ms last [] rest [] ms :=
  fun seen => ⟨seen, rfl⟩

theorem Reads.append (h : Reads ms last t (t' ++ rest) vs ms')
    (h' : Reads ms' (t.getLast?.or last) t' rest vs' ms'') :
    Reads ms last (t ++ t') rest (vs ++ vs') ms'' := by
  intro seen
  obtain ⟨seen', heq⟩ := h seen
  obtain ⟨seen'', heq'⟩ := h' seen'
  refine ⟨seen'', ?_⟩
  rw [List.append_assoc, heq, heq', List.append_assoc, List.getLast?_append, Option.or_assoc]

theorem Hides.append (h : Hides ms last t (t' ++ rest) ms')
    (h' : Hides ms' (t.getLast?.or last) t' rest ms'') : Hides ms last (t ++ t') rest ms'' := by
  have happend := Reads.append h h'
  rwa [← List.replicate_add, ← List.length_append] at happend

theorem liveFrom_skip (ms : List Mode) (seen : Bool) (last : Option Byte) (t rest : Bytes) :
    liveFrom ⟨ms, seen, t.length, last⟩ (t ++ rest) =
      List.replicate t.length false ++ liveFrom ⟨ms, seen, 0, t.getLast?.or last⟩ rest := by
  induction t generalizing last with
  | nil => rfl
  | cons b t ih =>
    rw [List.cons_append, liveFrom_cons, List.length_cons]
    simp only [advance]
    rw [ih, List.getLast?_cons, List.replicate_succ, List.cons_append]
    cases t.getLast? <;> rfl

/-- A token is read in one step. -/
theorem reads_token {b : Byte} {code : Bool}
    (h : ∀ seen, ∃ seen' shade,
      step ⟨ms, seen, 0, last⟩ b (t ++ rest) = ⟨ms', seen', t.length + 1, code, shade⟩) :
    Reads ms last (b :: t) rest (code :: List.replicate t.length false) ms' := by
  intro seen
  obtain ⟨seen', shade, hstep⟩ := h seen
  refine ⟨seen', ?_⟩
  rw [List.cons_append, liveFrom_cons]
  simp only [advance, hstep, Nat.add_sub_cancel]
  rw [liveFrom_skip, List.getLast?_cons, List.cons_append]
  cases t.getLast? <;> rfl

theorem hides_token {b : Byte}
    (h : ∀ seen, ∃ seen' shade,
      step ⟨ms, seen, 0, last⟩ b (t ++ rest) = ⟨ms', seen', t.length + 1, false, shade⟩) :
    Hides ms last (b :: t) rest ms' :=
  reads_token h

/-! ### Code -/

/-- Code takes the scanner from one list of modes to another: it stays in live code, and in a hole
the braces are counted. -/
inductive Passes : List Mode → Bytes → List Mode → Prop
  | live (t : Bytes) : Passes [] t []
  | hole {depth depth' : Nat} (outer : List Mode) {t : Bytes}
      (h : depthAfter? depth t = some depth') :
      Passes (.hole depth :: outer) t (.hole depth' :: outer)

theorem step_of_passes (h : Passes ms t ms') {seen : Bool} {b : Byte} {rest : Bytes} {move : Move}
    (hmove : opening? ⟨ms, seen, 0, last⟩ b rest = some move) :
    step ⟨ms, seen, 0, last⟩ b rest = move := by
  cases h <;> simp only [step, hmove, Option.getD_some]

theorem opening?_of_isPlain {b : Byte} (hb : Byte.isPlain b = true) (st : State) (rest : Bytes) :
    opening? st b rest = none := by
  simp only [Byte.isPlain, Bool.and_eq_true, bne_iff_ne] at hb
  obtain ⟨⟨⟨⟨⟨hquote, happos⟩, hslash⟩, hhash⟩, hdollar⟩, hat⟩ := hb
  have hstring : stringAt? st.last (b :: rest) = none := by
    simp [stringAt?, runLength, hdollar, hat, hquote]
  simp [opening?, hslash, hhash, happos, hstring]

theorem afterHoleByte_of_depthAfter? {depth depth' : Nat} {b : Byte}
    (h : depthAfter? depth [b] = some depth') (outer : List Mode) :
    afterHoleByte outer depth b = .hole depth' :: outer := by
  simp only [depthAfter?] at h
  split at h
  case isTrue hopen =>
    obtain rfl := Option.some.inj h
    simp [afterHoleByte, hopen]
  case isFalse hopen =>
    split at h
    case isTrue hclose =>
      cases depth with
      | zero => cases h
      | succ depth =>
        obtain rfl := Option.some.inj h
        rw [afterHoleByte, if_neg (by simpa using hopen), if_pos (by simpa using hclose)]
        rfl
    case isFalse hclose =>
      obtain rfl := Option.some.inj h
      simp [afterHoleByte, hopen, hclose]

theorem depthAfter?_append (depth : Nat) (t t' : Bytes) :
    depthAfter? depth (t ++ t') =
      (depthAfter? depth t).bind fun depth' => depthAfter? depth' t' := by
  fun_induction depthAfter? depth t with
  | case1 => rfl
  | case2 depth rest ih => simpa [depthAfter?] using ih
  | case3 rest hopen => simp [depthAfter?, hopen]
  | case4 rest depth hopen ih => simpa [depthAfter?, hopen] using ih
  | case5 depth b rest hopen hclose ih => simpa [depthAfter?, hopen, hclose] using ih

namespace Passes

theorem exists_of_append (h : Passes ms (t ++ t') ms'') :
    ∃ ms', Passes ms t ms' ∧ Passes ms' t' ms'' := by
  cases h with
  | live => exact ⟨[], .live t, .live t'⟩
  | hole outer h =>
    rw [depthAfter?_append, Option.bind_eq_some_iff] at h
    obtain ⟨depth', hdepth, hrest⟩ := h
    exact ⟨_, .hole outer hdepth, .hole outer hrest⟩

theorem isEmpty_eq (h : Passes ms t ms') : ms'.isEmpty = ms.isEmpty := by
  cases h <;> rfl

theorem eq_of_nil (h : Passes ms [] ms') : ms' = ms := by
  cases h with
  | live => rfl
  | hole outer h => rw [Option.some.inj h]

end Passes

/-- One byte of code. -/
theorem reads_plain {b : Byte} (hb : Byte.isPlain b = true) (h : Passes ms [b] ms')
    (last : Option Byte) (rest : Bytes) : Reads ms last [b] rest [ms.isEmpty] ms' := by
  refine reads_token fun seen => ?_
  cases h with
  | live => simp [step, opening?_of_isPlain hb]
  | hole outer h => simp [step, opening?_of_isPlain hb, afterHoleByte_of_depthAfter? h]

theorem reads_code (ht : ∀ b ∈ t, Byte.isPlain b = true) (h : Passes ms t ms') (last : Option Byte)
    (rest : Bytes) : Reads ms last t rest (List.replicate t.length ms.isEmpty) ms' := by
  induction t generalizing ms last with
  | nil =>
    rw [h.eq_of_nil]
    exact reads_nil ms last rest
  | cons b t ih =>
    obtain ⟨hb, ht⟩ := List.forall_mem_cons.1 ht
    obtain ⟨ms₁, hhead, htail⟩ := h.exists_of_append (t := [b])
    have hrest := ih ht htail (some b)
    rw [hhead.isEmpty_eq] at hrest
    exact (reads_plain hb hhead last _).append hrest

/-! ### Comments -/

theorem hides_lineComment_text {text : Bytes} (htext : Byte.newline ∉ text) (ms : List Mode)
    (last : Option Byte) (rest : Bytes) :
    Hides (.lineComment :: ms) last text rest (.lineComment :: ms) := by
  induction text generalizing last with
  | nil => exact reads_nil _ last rest
  | cons b text ih =>
    obtain ⟨hb, htext⟩ := not_or.1 (mt List.mem_cons.2 htext)
    have hbyte : Hides (.lineComment :: ms) last [b] (text ++ rest) (.lineComment :: ms) :=
      hides_token fun seen => ⟨seen, .erase, by simp [step, Ne.symm hb]⟩
    exact Hides.append (t := [b]) hbyte (ih htext (some b))

theorem reads_lineComment {text : Bytes} (htext : Byte.newline ∉ text) (h : Passes ms [] ms')
    (last : Option Byte) (rest : Bytes) :
    Reads ms last (Lexeme.lineComment text).render rest
      ((Lexeme.lineComment text).verdicts ms.isEmpty) ms := by
  have hopen : Hides ms last [Byte.slash, Byte.slash] ((text ++ [Byte.newline]) ++ rest)
      (.lineComment :: ms) :=
    hides_token fun seen => ⟨_, _, step_of_passes h rfl⟩
  have hclose : Reads (.lineComment :: ms) (text.getLast?.or (some Byte.slash)) [Byte.newline] rest
      [ms.isEmpty] ms :=
    reads_token fun seen => ⟨_, _, rfl⟩
  have hread := Reads.append (t := [Byte.slash, Byte.slash]) hopen
    (Reads.append (hides_lineComment_text htext ms _ _) hclose)
  rw [← List.append_assoc (List.replicate _ _), ← List.replicate_add, Nat.add_comm] at hread
  exact hread

theorem hides_blockComment_text {text : Bytes} (htext : ¬ [Byte.star, Byte.slash] <:+: text)
    (ms : List Mode) (last : Option Byte) (rest : Bytes) :
    Hides (.blockComment :: ms) last text (Byte.star :: Byte.slash :: rest)
      (.blockComment :: ms) := by
  induction text generalizing last with
  | nil => exact reads_nil _ last _
  | cons b text ih =>
    -- The comment is not closed here, also not by a star in front of the closing mark.
    have hopen : ¬ (b = Byte.star ∧
        (text ++ Byte.star :: Byte.slash :: rest).head? = some Byte.slash) := by
      rintro ⟨rfl, hslash⟩
      cases text with
      | nil => exact absurd (Option.some.inj hslash) (by decide)
      | cons c text =>
        obtain rfl : c = Byte.slash := Option.some.inj hslash
        exact htext ⟨[], text, rfl⟩
    have hbyte : Hides (.blockComment :: ms) last [b] (text ++ Byte.star :: Byte.slash :: rest)
        (.blockComment :: ms) :=
      hides_token fun seen => by
        simp only [step, List.nil_append, Bool.and_eq_true, beq_iff_eq, if_neg hopen]
        split <;> exact ⟨_, _, rfl⟩
    have hinfix : ¬ [Byte.star, Byte.slash] <:+: text := fun h =>
      htext (h.trans (List.infix_cons List.infix_rfl))
    exact Hides.append (t := [b]) hbyte (ih hinfix (some b))

theorem hides_blockComment {text : Bytes} (htext : ¬ [Byte.star, Byte.slash] <:+: text)
    (h : Passes ms [] ms') (last : Option Byte) (rest : Bytes) :
    Hides ms last (Lexeme.blockComment text).render rest ms := by
  have hopen : Hides ms last [Byte.slash, Byte.star]
      ((text ++ [Byte.star, Byte.slash]) ++ rest) (.blockComment :: ms) :=
    hides_token fun seen => ⟨_, _, step_of_passes h rfl⟩
  have hclose : Hides (.blockComment :: ms) (text.getLast?.or (some Byte.star))
      [Byte.star, Byte.slash] rest ms :=
    hides_token fun seen => ⟨_, _, rfl⟩
  exact Hides.append hopen (Hides.append (hides_blockComment_text htext ms _ _) hclose)

/-! ### Opening a literal -/

theorem runLength_eq_zero {b : Byte} {s : Bytes} (h : s.head? ≠ some b) : runLength b s = 0 := by
  cases s with
  | nil => rfl
  | cons c s =>
    have hc : c ≠ b := by simpa using h
    simp [runLength, hc]

theorem runLength_replicate_append {b : Byte} {s : Bytes} (n : Nat) (h : s.head? ≠ some b) :
    runLength b (List.replicate n b ++ s) = n := by
  induction n with
  | zero => exact runLength_eq_zero h
  | succ n ih => rw [List.replicate_succ, List.cons_append, runLength_cons_self, ih]

/-- The signs in front of a quote tell the kind of the string, unless there are three quotes. -/
theorem stringAt?_sigils {q : Quoting} {kind : StringKind} (hq : q.kind? = some kind)
    (hlast : q.sigils ≠ [] → last.any Byte.isWord = false)
    (hrun : q.isVerbatim = false → runLength Byte.quote rest < 2) :
    stringAt? last (q.sigils ++ Byte.quote :: rest) = some (kind, q.sigils.length + 1) := by
  have hsigils : ∀ b ∈ q.sigils, (b == Byte.dollar || b == Byte.atSign) = true := by
    cases q <;> simp [Quoting.sigils]
  have hmarks : (q.sigils ++ Byte.quote :: rest).takeWhile
      (fun b => b == Byte.dollar || b == Byte.atSign) = q.sigils := by
    rw [List.takeWhile_append_of_pos hsigils, List.takeWhile_cons_of_neg (by decide),
      List.append_nil]
  have hdollars : q.sigils.count Byte.dollar = if q.isInterpolated then 1 else 0 := by
    cases q <;> rfl
  have hats : q.sigils.count Byte.atSign = if q.isVerbatim then 1 else 0 := by
    cases q <;> rfl
  have hword : (!q.sigils.isEmpty && last.any Byte.isWord) = false := by
    by_cases hsigils : q.sigils = []
    · simp [hsigils]
    · simp [hlast hsigils]
  have hraw : (decide (3 ≤ runLength Byte.quote rest + 1) &&
      q.sigils.count Byte.atSign == 0) = false := by
    cases hverbatim : q.isVerbatim with
    | false =>
      have := hrun hverbatim
      simp only [Bool.and_eq_false_iff, decide_eq_false_iff_not]
      omega
    | true => simp [hats, hverbatim]
  simp only [stringAt?, hmarks, List.drop_left, runLength_cons_self, hword, hraw]
  simp only [hdollars, hats]
  cases q <;> cases hq <;> rfl

theorem hides_stringAt {b : Byte} {kind : StringKind} (h : Passes ms [] ms')
    (hslash : b ≠ Byte.slash) (hhash : b ≠ Byte.hash)
    (hstring : stringAt? last (b :: (t ++ rest)) = some (kind, t.length + 1)) :
    Hides ms last (b :: t) rest (.string kind :: ms) := by
  refine hides_token fun seen => ⟨true, .blank, step_of_passes h ?_⟩
  simp [opening?, hslash, hhash, hstring]

theorem hides_opening {q : Quoting} (h : Passes ms [] ms')
    (hlast : q.sigils ≠ [] → last.any Byte.isWord = false)
    (hrun : q.mark = Byte.quote → q.isVerbatim = false → runLength Byte.quote rest < 2) :
    Hides ms last (q.sigils ++ [q.mark]) rest (q.mode :: ms) := by
  cases q with
  | character => exact hides_token (t := []) fun seen => ⟨true, .blank, step_of_passes h rfl⟩
  | regular | verbatim | interpolated | interpolatedVerbatim =>
    exact hides_stringAt h (by decide) (by decide) (stringAt?_sigils rfl hlast (hrun rfl))

/-! ### Parts of a literal -/

theorem step_string {q : Quoting} {kind : StringKind} (hq : q.kind? = some kind) {b : Byte}
    (hb : q.isVerbatim = false → b ≠ Byte.newline) (ms : List Mode) (seen : Bool)
    (last : Option Byte) (rest : Bytes) :
    step ⟨q.mode :: ms, seen, 0, last⟩ b rest =
      ⟨(quotedStep ms kind b rest).1, seen && b != Byte.newline, (quotedStep ms kind b rest).2,
        false, .blank⟩ := by
  have hline : (b == Byte.newline && !kind.isVerbatim) = false := by
    rw [Quoting.isVerbatim_eq hq]
    cases hverbatim : q.isVerbatim with
    | false => simp [hb hverbatim]
    | true => simp
  rw [Quoting.mode_eq hq]
  cases q <;> cases hq <;> simp only [step, stringStep, hline] <;> rfl

theorem escapes_of_ne {b : Byte} (hb : b ≠ Byte.backslash) (rest : Bytes) :
    escapes b rest = false := by
  simp [escapes, hb]

theorem hides_quoted {q : Quoting} {kind : StringKind} (hq : q.kind? = some kind) {b : Byte}
    (hb : q.isVerbatim = false → b ≠ Byte.newline)
    (hstep : quotedStep ms kind b (t ++ rest) = (ms', t.length + 1)) :
    Hides (q.mode :: ms) last (b :: t) rest ms' :=
  hides_token fun seen => ⟨_, .blank, by rw [step_string hq hb, hstep]⟩

/-- A byte that stands for itself. -/
theorem hides_byte {q : Quoting} {b : Byte} (hb : q.Admits b) (ms : List Mode) (last : Option Byte)
    (rest : Bytes) : Hides (q.mode :: ms) last [b] rest (q.mode :: ms) := by
  obtain ⟨hmark, hline, hbrace⟩ := hb
  cases hq : q.kind? with
  | none =>
    obtain rfl := Quoting.eq_character hq
    obtain ⟨hbackslash, hnewline⟩ := hline rfl
    have happos : b ≠ Byte.apostrophe := hmark
    exact hides_token fun seen => ⟨seen, .erase, by
      simp [Quoting.mode, Quoting.kind?, step, escapes, hbackslash, hnewline, happos]⟩
  | some kind =>
    rw [Quoting.mark_eq hq] at hmark
    have hescape : (!kind.isVerbatim && escapes b rest) = false := by
      rw [Quoting.isVerbatim_eq hq]
      cases hverbatim : q.isVerbatim with
      | false => simp [escapes_of_ne (hline hverbatim).1]
      | true => rfl
    have hhole : (kind.isInterpolated && b == Byte.openBrace) = false := by
      rw [Quoting.isInterpolated_eq hq]
      cases hinterpolated : q.isInterpolated with
      | false => rfl
      | true => simp [hbrace hinterpolated]
    refine hides_quoted hq (fun hverbatim => (hline hverbatim).2) ?_
    rw [quotedStep, List.nil_append, hescape, hhole, Quoting.mode_eq hq]
    simp [hmark]

theorem hides_escape {q : Quoting} (hq : q.isVerbatim = false) {b : Byte} (hb : b ≠ Byte.newline)
    (ms : List Mode) (last : Option Byte) (rest : Bytes) :
    Hides (q.mode :: ms) last [Byte.backslash, b] rest (q.mode :: ms) := by
  have hescape : escapes Byte.backslash (b :: rest) = true := by simp [escapes, hb]
  cases hkind : q.kind? with
  | none =>
    obtain rfl := Quoting.eq_character hkind
    exact hides_token fun seen => ⟨seen, .blank, by
      simp [Quoting.mode, Quoting.kind?, step, hescape]⟩
  | some kind =>
    refine hides_quoted hkind (fun _ => by decide) ?_
    simp [quotedStep, Quoting.isVerbatim_eq hkind, hq, hescape, Quoting.mode_eq hkind]

theorem hides_quotes {q : Quoting} (hq : q.isVerbatim = true) (ms : List Mode) (last : Option Byte)
    (rest : Bytes) : Hides (q.mode :: ms) last [Byte.quote, Byte.quote] rest (q.mode :: ms) := by
  obtain ⟨kind, hkind⟩ := Quoting.exists_kind_eq (q := q) (by rintro rfl; cases hq)
  refine hides_quoted hkind (fun _ => by decide) ?_
  simp [quotedStep, Quoting.isVerbatim_eq hkind, hq, Quoting.mode_eq hkind]

theorem hides_braces {q : Quoting} (hq : q.isInterpolated = true) (ms : List Mode)
    (last : Option Byte) (rest : Bytes) :
    Hides (q.mode :: ms) last [Byte.openBrace, Byte.openBrace] rest (q.mode :: ms) := by
  obtain ⟨kind, hkind⟩ := Quoting.exists_kind_eq (q := q) (by rintro rfl; cases hq)
  refine hides_quoted hkind (fun _ => by decide) ?_
  simp [quotedStep, Quoting.isInterpolated_eq hkind, hq, Quoting.mode_eq hkind]

/-- A brace that is not doubled opens a hole. -/
theorem hides_openBrace {q : Quoting} (hq : q.isInterpolated = true)
    (hrest : rest.head? ≠ some Byte.openBrace) (ms : List Mode) (last : Option Byte) :
    Hides (q.mode :: ms) last [Byte.openBrace] rest (.hole 0 :: q.mode :: ms) := by
  obtain ⟨kind, hkind⟩ := Quoting.exists_kind_eq (q := q) (by rintro rfl; cases hq)
  have hescape : escapes Byte.openBrace rest = false := escapes_of_ne (by decide) rest
  have hquote : Byte.openBrace ≠ Byte.quote := by decide
  refine hides_quoted hkind (fun _ => by decide) ?_
  simp [quotedStep, Quoting.isInterpolated_eq hkind, hq, Quoting.mode_eq hkind, hrest, hescape,
    hquote]

/-- A mark that is not doubled closes the literal. -/
theorem hides_mark {q : Quoting} (hrest : q.mark = Byte.quote → rest.head? ≠ some Byte.quote)
    (ms : List Mode) (last : Option Byte) : Hides (q.mode :: ms) last [q.mark] rest ms := by
  cases hkind : q.kind? with
  | none =>
    obtain rfl := Quoting.eq_character hkind
    exact hides_token fun seen => ⟨seen, .erase, rfl⟩
  | some kind =>
    have hmark := Quoting.mark_eq hkind
    have hescape : escapes Byte.quote rest = false := escapes_of_ne (by decide) rest
    have hbrace : Byte.quote ≠ Byte.openBrace := by decide
    rw [hmark]
    refine hides_quoted hkind (fun _ => by decide) ?_
    simp [quotedStep, hrest hmark, hescape, hbrace]

/-- The brace that closes a hole. -/
theorem hides_closeBrace (ms : List Mode) (last : Option Byte) (rest : Bytes) :
    Hides (.hole 0 :: ms) last [Byte.closeBrace] rest ms :=
  hides_token fun seen => ⟨seen, .blank, by
    simp only [step, opening?_of_isPlain (show Byte.isPlain Byte.closeBrace = true by decide)]
    rfl⟩

/-- The quotes behind the mark that opens a string are fewer than two, if quotes are not doubled in
it. -/
theorem runLength_parts_lt {q : Quoting} (hmark : q.mark = Byte.quote) (hq : q.isVerbatim = false)
    {parts : List Part} (hparts : Part.AllSound q parts) (hrest : rest.head? ≠ some Byte.quote) :
    runLength Byte.quote (Part.renderAll parts ++ (q.mark :: rest)) < 2 := by
  cases parts with
  | nil =>
    rw [Part.renderAll, List.nil_append, hmark, runLength_cons_self, runLength_eq_zero hrest]
    decide
  | cons p parts =>
    have hhead :
        (p.render ++ (Part.renderAll parts ++ q.mark :: rest)).head? ≠ some Byte.quote := by
      have hp := hparts.1
      cases p with
      | byte b =>
        have hb : b ≠ Byte.quote := hmark ▸ hp.1
        simpa [Part.render] using hb
      | escape b => simp [Part.render]; decide
      | quotes => exact absurd hp (by simp [Part.Sound, hq])
      | braces => simp [Part.render]; decide
      | hole content => simp [Part.render]; decide
    rw [Part.renderAll, List.append_assoc, runLength_eq_zero hhead]
    decide

/-- A literal is read to its end if its parts are. -/
theorem hides_literal {q : Quoting} {parts : List Part} (h : Passes ms [] ms')
    (hlast : q.sigils ≠ [] → last.any Byte.isWord = false) (hparts : Part.AllSound q parts)
    (hhides : ∀ last rest, Hides (q.mode :: ms) last (Part.renderAll parts) rest (q.mode :: ms))
    (hrest : q.mark = Byte.quote → rest.head? ≠ some Byte.quote) :
    Hides ms last (Lexeme.literal q parts).render rest ms := by
  have hopen : Hides ms last (q.sigils ++ [q.mark]) (Part.renderAll parts ++ [q.mark] ++ rest)
      (q.mode :: ms) := by
    refine hides_opening h hlast fun hmark hverbatim => ?_
    rw [List.append_assoc]
    exact runLength_parts_lt hmark hverbatim hparts (hrest hmark)
  have hread := Hides.append hopen (Hides.append (hhides _ _) (hides_mark hrest ms _))
  rw [List.append_assoc] at hread
  exact hread

/-! ### Raw strings -/

theorem hides_raw_byte {b : Byte} (hb : b ≠ Byte.quote) (quotes : Nat) (ms : List Mode)
    (last : Option Byte) (rest : Bytes) :
    Hides (.string (.raw quotes 0) :: ms) last [b] rest (.string (.raw quotes 0) :: ms) :=
  hides_token fun seen => ⟨_, .blank, by simp only [step, stringStep, rawStep]; simp [hb]; rfl⟩

/-- A run of quotes closes a raw string if it is as long as the one that opened it. -/
theorem hides_raw_run {n : Nat} (hn : n ≠ 0) (hrest : rest.head? ≠ some Byte.quote) (quotes : Nat)
    (ms : List Mode) (last : Option Byte) :
    Hides (.string (.raw quotes 0) :: ms) last (List.replicate n Byte.quote) rest
      (if quotes ≤ n then ms else .string (.raw quotes 0) :: ms) := by
  obtain ⟨k, rfl⟩ := Nat.exists_eq_succ_of_ne_zero hn
  rw [List.replicate_succ]
  refine hides_token fun seen => ⟨seen && Byte.quote != Byte.newline, .blank, ?_⟩
  have hrun := runLength_replicate_append (k + 1) hrest
  rw [List.replicate_succ, List.cons_append] at hrun
  simp [step, stringStep, rawStep, hrun]

theorem exists_eq_replicate_append (b : Byte) (s : Bytes) :
    ∃ n t, s = List.replicate n b ++ t ∧ t.head? ≠ some b := by
  induction s with
  | nil => exact ⟨0, [], rfl, by simp⟩
  | cons c s ih =>
    by_cases hc : c = b
    · obtain ⟨n, t, rfl, ht⟩ := ih
      exact ⟨n + 1, t, by rw [hc, List.replicate_succ, List.cons_append], ht⟩
    · exact ⟨0, c :: s, rfl, by simpa using hc⟩

/-- A run of quotes that is too short to close the raw string. -/
theorem hides_raw_short {n quotes : Nat} (hn : n < quotes) (hrest : rest.head? ≠ some Byte.quote)
    (ms : List Mode) (last : Option Byte) :
    Hides (.string (.raw quotes 0) :: ms) last (List.replicate n Byte.quote) rest
      (.string (.raw quotes 0) :: ms) := by
  rcases Nat.eq_zero_or_pos n with rfl | hpos
  · exact reads_nil _ last rest
  · have hread := hides_raw_run (Nat.ne_of_gt hpos) hrest quotes ms last
    rwa [if_neg (Nat.not_le.2 hn)] at hread

theorem hides_raw_text {quotes : Nat} {text : Bytes} (hlast : text.getLast? ≠ some Byte.quote)
    (hrun : ¬ List.replicate quotes Byte.quote <:+: text) (ms : List Mode) (last : Option Byte)
    (rest : Bytes) :
    Hides (.string (.raw quotes 0) :: ms) last text rest (.string (.raw quotes 0) :: ms) := by
  -- A run of quotes is read at once, so that the induction is on the length of the text.
  induction hlength : text.length using Nat.strong_induction_on generalizing text last with
  | _ length ih =>
    obtain ⟨n, tail, rfl, htail⟩ := exists_eq_replicate_append Byte.quote text
    cases tail with
    | nil =>
      -- The text does not end in a quote, so there is no run.
      rw [List.append_nil, List.getLast?_replicate] at hlast
      obtain rfl : n = 0 := by simpa using hlast
      exact reads_nil _ last rest
    | cons b tail =>
      have hb : b ≠ Byte.quote := by simpa using htail
      have hn : n < quotes := by
        by_contra hle
        obtain ⟨k, rfl⟩ := Nat.exists_eq_add_of_le (Nat.not_lt.1 hle)
        rw [List.replicate_add, List.append_assoc] at hrun
        exact hrun (List.prefix_append _ _).isInfix
      have hlast' : tail.getLast? ≠ some Byte.quote := by
        intro h
        rw [List.getLast?_append, List.getLast?_cons, h] at hlast
        exact hlast rfl
      have hrun' : ¬ List.replicate quotes Byte.quote <:+: tail := fun h =>
        hrun (h.trans ((List.suffix_cons b tail).trans (List.suffix_append _ _)).isInfix)
      have hrest := ih tail.length (by simp [← hlength]; omega) hlast' hrun' (some b) rfl
      exact Hides.append (hides_raw_short hn (by simpa using hb) ms last)
        (Hides.append (t := [b]) (hides_raw_byte hb quotes ms _ _) hrest)

theorem stringAt?_quotes {quotes : Nat} (hquotes : 3 ≤ quotes) (last : Option Byte)
    (hrest : rest.head? ≠ some Byte.quote) :
    stringAt? last (List.replicate quotes Byte.quote ++ rest) = some (.raw quotes 0, quotes) := by
  obtain ⟨n, rfl⟩ := Nat.exists_eq_add_of_le' hquotes
  have hrun := runLength_replicate_append (n + 3) hrest
  rw [List.replicate_succ, List.cons_append] at hrun ⊢
  have hmarks : (Byte.quote :: (List.replicate (n + 2) Byte.quote ++ rest)).takeWhile
      (fun b => b == Byte.dollar || b == Byte.atSign) = [] :=
    List.takeWhile_cons_of_neg (by decide)
  simp [stringAt?, hmarks, hrun]

theorem hides_raw {quotes : Nat} {text : Bytes} (h : Passes ms [] ms')
    (htext : (Lexeme.raw quotes text).Sound) (hrest : rest.head? ≠ some Byte.quote)
    (last : Option Byte) : Hides ms last (Lexeme.raw quotes text).render rest ms := by
  obtain ⟨hquotes, hne, hfirst, hlast, hrun⟩ := htext
  obtain ⟨n, rfl⟩ := Nat.exists_eq_add_of_le' hquotes
  have hhead : (text ++ List.replicate (n + 3) Byte.quote ++ rest).head? ≠ some Byte.quote := by
    obtain ⟨b, text, rfl⟩ := List.exists_cons_of_ne_nil hne
    exact hfirst
  have hopen : Hides ms last (List.replicate (n + 3) Byte.quote)
      (text ++ List.replicate (n + 3) Byte.quote ++ rest) (.string (.raw (n + 3) 0) :: ms) := by
    have hstring := stringAt?_quotes hquotes last hhead
    rw [List.replicate_succ, List.cons_append] at hstring
    rw [List.replicate_succ]
    refine hides_stringAt h (by decide) (by decide) (hstring.trans ?_)
    rw [List.length_replicate]
  have hclose := hides_raw_run (n := n + 3) (Nat.succ_ne_zero _) hrest (n + 3) ms
    (text.getLast?.or ((List.replicate (n + 3) Byte.quote).getLast?.or last))
  rw [if_pos le_rfl] at hclose
  exact Hides.append hopen (Hides.append (hides_raw_text hlast hrun ms _ _) hclose)

end Scanner

end SymbolAtlas
