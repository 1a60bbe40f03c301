import Mathlib.Tactic
import SymbolAtlas.Proofs.Mask.Reading
import SymbolAtlas.Text.Utf8

/-!
# Literals and comments are opaque

The scanner reads a text made of lexical elements as it was written: what stands in literals and
comments, holes and all that nests in them included, never counts as live code, and nothing else is
lost (`Mask.ofSource_renderAll`).

`Scanner.reads_lexemes` follows the nesting of elements and of the parts of literals, and
`Mask.zipWith_veil_flatMap` turns the verdicts into what is shown.
-/

namespace SymbolAtlas

namespace Scanner

theorem head?_append_ne {b : Byte} {t rest : Bytes} (ht : t.head? ≠ some b)
    (hrest : rest.head? ≠ some b) : (t ++ rest).head? ≠ some b := by
  intro h
  rw [List.head?_append, Option.or_eq_some_iff] at h
  rcases h with h | ⟨-, h⟩
  · exact ht h
  · exact hrest h

mutual

/-- An element is read with its verdicts, in live code and in holes. -/
theorem reads_lexeme (e : Lexeme) (he : e.Sound) {ms ms' : List Mode} {last : Option Byte}
    {rest : Bytes} (h : Passes ms e.codeText ms')
    (hsigils : e.hasSigils = true → last.any Byte.isWord = false)
    (hquote : e.render.getLast? = some Byte.quote → rest.head? ≠ some Byte.quote) :
    Reads ms last e.render rest (e.verdicts ms.isEmpty) ms' := by
  cases e with
  | code text => exact reads_code he h last rest
  | lineComment text =>
    rw [h.eq_of_nil]
    exact reads_lineComment he h last rest
  | blockComment text =>
    rw [h.eq_of_nil]
    exact hides_blockComment he h last rest
  | literal q parts =>
    rw [h.eq_of_nil]
    refine hides_literal h (fun hne => hsigils ?_) he (hides_parts q parts he ms)
      fun hmark => hquote ?_
    · simpa [Lexeme.hasSigils] using hne
    · rw [Lexeme.getLast?_render_literal, hmark]
  | raw quotes text =>
    rw [h.eq_of_nil]
    exact hides_raw h he (hquote (Lexeme.getLast?_render_raw (Nat.ne_zero_of_lt he.1) text)) last

/-- The verdicts on elements follow each other. -/
theorem reads_lexemes (es : List Lexeme) {ms ms' : List Mode} {last : Option Byte} {rest : Bytes}
    (harranged : Lexeme.Arranged last es) (h : Passes ms (es.flatMap Lexeme.codeText) ms')
    (hrest : rest.head? ≠ some Byte.quote) :
    Reads ms last (Lexeme.renderAll es) rest (es.flatMap (Lexeme.verdicts ms.isEmpty)) ms' := by
  cases es with
  | nil =>
    rw [h.eq_of_nil]
    exact reads_nil ms last rest
  | cons e es =>
    obtain ⟨hsound, hsigils, hquote, htail⟩ := harranged
    obtain ⟨between, hhead, hpasses⟩ := h.exists_of_append
    have hes := reads_lexemes es htail hpasses hrest
    rw [hhead.isEmpty_eq] at hes
    exact (reads_lexeme e hsound hhead hsigils fun hlast =>
      head?_append_ne (hquote hlast) hrest).append hes

/-- A part of a literal is read without leaving the literal. -/
theorem hides_part (q : Quoting) (p : Part) (hp : p.Sound q) (ms : List Mode) (last : Option Byte)
    (rest : Bytes) : Hides (q.mode :: ms) last p.render rest (q.mode :: ms) := by
  cases p with
  | byte b => exact hides_byte hp ms last rest
  | escape b => exact hides_escape hp.1 hp.2 ms last rest
  | quotes => exact hides_quotes hp ms last rest
  | braces => exact hides_braces hp ms last rest
  | hole content =>
    obtain ⟨hq, hbalanced, hbrace, harranged⟩ := hp
    have hopen : Hides (q.mode :: ms) last [Byte.openBrace]
        (Lexeme.renderAll content ++ [Byte.closeBrace] ++ rest) (.hole 0 :: q.mode :: ms) := by
      rw [List.append_assoc]
      exact hides_openBrace hq (head?_append_ne hbrace (by simp; decide)) ms last
    have hcontent : Reads (.hole 0 :: q.mode :: ms) (some Byte.openBrace) (Lexeme.renderAll content)
        ([Byte.closeBrace] ++ rest) (content.flatMap (Lexeme.verdicts false))
        (.hole 0 :: q.mode :: ms) :=
      reads_lexemes content harranged (.hole (q.mode :: ms) hbalanced) (by simp; decide)
    rw [Lexeme.flatMap_verdicts_false] at hcontent
    exact Hides.append (t := [Byte.openBrace]) hopen
      (Hides.append hcontent (hides_closeBrace (q.mode :: ms) _ rest))

theorem hides_parts (q : Quoting) (ps : List Part) (hps : Part.AllSound q ps) (ms : List Mode)
    (last : Option Byte) (rest : Bytes) :
    Hides (q.mode :: ms) last (Part.renderAll ps) rest (q.mode :: ms) := by
  cases ps with
  | nil => exact reads_nil _ last rest
  | cons p ps =>
    exact Hides.append (hides_part q p hps.1 ms last _) (hides_parts q ps hps.2 ms _ rest)

end

/-- The verdicts on a text are those on its elements. -/
theorem live_renderAll {es : List Lexeme} (h : Lexeme.Arranged none es) :
    live (Lexeme.renderAll es) = es.flatMap (Lexeme.verdicts true) := by
  have hread : Reads [] none (Lexeme.renderAll es) [] (es.flatMap (Lexeme.verdicts true)) [] :=
    reads_lexemes es h (.live _) (by simp)
  obtain ⟨seen, heq⟩ := hread false
  rw [List.append_nil] at heq
  exact heq.trans (List.append_nil _)

end Scanner

namespace Mask

theorem zipWith_veil_replicate (s : Bytes) (live : Bool) :
    List.zipWith veil s (List.replicate s.length live) = s.map fun b => veil b live := by
  induction s with
  | nil => rfl
  | cons b s ih =>
    rw [List.length_cons, List.replicate_succ, List.zipWith_cons_cons, ih, List.map_cons]

theorem zipWith_veil_verdicts (e : Lexeme) :
    List.zipWith veil e.render (e.verdicts true) = e.shown := by
  have hhidden : ∀ s : Bytes, List.zipWith veil s (List.replicate s.length false) =
      s.map fun b => if b = Byte.newline then b else Byte.space := by
    intro s
    simp [zipWith_veil_replicate, veil]
  cases e with
  | code text =>
    exact (zipWith_veil_replicate text true).trans (by simp [veil, Lexeme.shown])
  | lineComment text =>
    have hsplit : (Lexeme.lineComment text).render =
        (Byte.slash :: Byte.slash :: text) ++ [Byte.newline] := rfl
    change _ = (Lexeme.lineComment text).render.map fun b =>
      if b = Byte.newline then b else Byte.space
    rw [hsplit, List.map_append, ← hhidden]
    exact List.zipWith_append (by simp)
  | blockComment text => exact hhidden _
  | literal q parts => exact hhidden _
  | raw quotes text => exact hhidden _

theorem zipWith_veil_flatMap (es : List Lexeme) :
    List.zipWith veil (Lexeme.renderAll es) (es.flatMap (Lexeme.verdicts true)) =
      es.flatMap Lexeme.shown := by
  induction es with
  | nil => rfl
  | cons e es ih =>
    rw [Lexeme.renderAll, List.flatMap_cons,
      List.zipWith_append (Lexeme.length_verdicts true e).symm, zipWith_veil_verdicts, ih,
      List.flatMap_cons]

/-- **Literals and comments are opaque.** Of a text made of lexical elements, live code is just the
code outside of all literals and the newlines that end its line comments. That is shown as it is,
and of all else only the newlines. -/
theorem ofSource_renderAll {es : List Lexeme} (h : Lexeme.Arranged none es) :
    (ofSource (Lexeme.renderAll es)).code = es.flatMap (Lexeme.verdicts true) ∧
      (ofSource (Lexeme.renderAll es)).shown = es.flatMap Lexeme.shown := by
  have hlive := Scanner.live_renderAll h
  refine ⟨(code_ofSource _).trans hlive, ?_⟩
  rw [shown_ofSource, hlive, zipWith_veil_flatMap]

/-- A string with a hole that holds a string, a character and a comment, each with a brace in it,
followed by other literals and comments. -/
theorem ofSource_renderAll_nested :
    let hole : List Lexeme :=
      [.code (.ofString "f("), .literal .regular [.escape Byte.quote, .byte Byte.closeBrace],
        .code (.ofString ", "), .literal .character [.byte Byte.closeBrace], .code (.ofString ") "),
        .blockComment (.ofString "*\x7d\n*")]
    let es : List Lexeme :=
      [.code (.ofString "a = "), .literal .interpolated [.braces, .hole hole, .escape Byte.quote],
        .code (.ofString " + "),
        .literal .interpolatedVerbatim [.quotes, .hole [], .byte Byte.newline],
        .code (.ofString "; "), .lineComment (.ofString " \"\x7b"), .code (.ofString "\x7b"),
        .raw 3 (.ofString "'\"\"\x7d"), .code (.ofString "\x7d\n")]
    (Lexeme.Arranged none es ∧
      Lexeme.renderAll es = .ofString
        ("a = $\"\x7b\x7b\x7bf(\"\\\"\x7d\", '\x7d') /**\x7d\n**/\x7d\\\"\"" ++
          " + $@\"\"\"\x7b\x7d\n\"; // \"\x7b\n\x7b\"\"\"'\"\"\x7d\"\"\"\x7d\n") ∧
      es.flatMap Lexeme.shown = Bytes.ofString ("a =                        \n       " ++
        " +        \n ;      \n\x7b          \x7d\n")) ∧
      (ofSource (Lexeme.renderAll es)).code = es.flatMap (Lexeme.verdicts true) ∧
      (ofSource (Lexeme.renderAll es)).shown = es.flatMap Lexeme.shown := by
  intro hole es
  have harranged : Lexeme.Arranged none es := by decide +kernel
  exact ⟨⟨harranged, by decide +kernel, by decide +kernel⟩, ofSource_renderAll harranged⟩

end Mask

end SymbolAtlas
