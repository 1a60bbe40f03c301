import Mathlib.Tactic
import SymbolAtlas.Mask.Basic

/-!
# Lexical elements

A text that is put together from code, comments and literals, and what its mask should be. The
literals with holes hold lexical elements in turn, so that they nest without bound.

* `Lexeme.render` and `Lexeme.renderAll` write elements out.
* `Lexeme.Sound` says what an element may hold, and `Lexeme.Arranged` what elements may follow each
  other. Both can be computed.
* `Lexeme.verdicts` and `Lexeme.shown` say what is live code and what is shown of it.
-/

namespace SymbolAtlas

/-- The literals that end at the first mark that is not part of an escape. -/
inductive Quoting where
  | character
  | regular
  | verbatim
  | interpolated
  | interpolatedVerbatim
  deriving DecidableEq, Repr

namespace Quoting

/-- The mark that opens and closes the literal. -/
def mark : Quoting → Byte
  | .character => Byte.apostrophe
  | _ => Byte.quote

/-- What stands in front of the opening mark. -/
def sigils : Quoting → Bytes
  | .character | .regular => []
  | .verbatim => [Byte.atSign]
  | .interpolated => [Byte.dollar]
  | .interpolatedVerbatim => [Byte.dollar, Byte.atSign]

/-- Quotes are doubled, and lines may end inside. Others have escapes. -/
def isVerbatim : Quoting → Bool
  | .verbatim | .interpolatedVerbatim => true
  | _ => false

/-- The literal has holes, and braces are doubled. -/
def isInterpolated : Quoting → Bool
  | .interpolated | .interpolatedVerbatim => true
  | _ => false

/-- The literal may hold the byte by itself. -/
def Admits (q : Quoting) (b : Byte) : Prop :=
  b ≠ q.mark ∧ (q.isVerbatim = false → b ≠ Byte.backslash ∧ b ≠ Byte.newline) ∧
    (q.isInterpolated = true → b ≠ Byte.openBrace)

instance (q : Quoting) (b : Byte) : Decidable (q.Admits b) :=
  inferInstanceAs (Decidable (_ ∧ _ ∧ _))

end Quoting

mutual

/-- A lexical element of a text. -/
inductive Lexeme where
  | code (text : Bytes)
  | lineComment (text : Bytes)
  | blockComment (text : Bytes)
  | literal (quoting : Quoting) (parts : List Part)
  /-- A string between two runs of at least three quotes. -/
  | raw (quotes : Nat) (text : Bytes)

/-- A part of a literal. -/
inductive Part where
  | byte (b : Byte)
  | escape (b : Byte)
  | quotes
  | braces
  | hole (content : List Lexeme)

end

/-! ### Writing out -/

mutual

/-- The text of an element. -/
def Lexeme.render : Lexeme → Bytes
  | .code text => text
  | .lineComment text => Byte.slash :: Byte.slash :: (text ++ [Byte.newline])
  | .blockComment text => Byte.slash :: Byte.star :: (text ++ [Byte.star, Byte.slash])
  | .literal q parts => q.sigils ++ q.mark :: (Part.renderAll parts ++ [q.mark])
  | .raw quotes text =>
    List.replicate quotes Byte.quote ++ (text ++ List.replicate quotes Byte.quote)

/-- The text of elements that follow each other. -/
def Lexeme.renderAll : List Lexeme → Bytes
  | [] => []
  | e :: es => e.render ++ Lexeme.renderAll es

/-- The text of a part of a literal. -/
def Part.render : Part → Bytes
  | .byte b => [b]
  | .escape b => [Byte.backslash, b]
  | .quotes => [Byte.quote, Byte.quote]
  | .braces => [Byte.openBrace, Byte.openBrace]
  | .hole content => Byte.openBrace :: (Lexeme.renderAll content ++ [Byte.closeBrace])

/-- The text of parts that follow each other. -/
def Part.renderAll : List Part → Bytes
  | [] => []
  | p :: ps => p.render ++ Part.renderAll ps

end

/-! ### What may be written -/

/-- The number of open braces after a text, unless one is closed that was not opened. -/
def Bytes.depthAfter? : Nat → Bytes → Option Nat
  | depth, [] => some depth
  | depth, b :: rest =>
    if b = Byte.openBrace then depthAfter? (depth + 1) rest
    else if b = Byte.closeBrace then
      match depth with
      | 0 => none
      | depth + 1 => depthAfter? depth rest
    else depthAfter? depth rest

/-- The byte begins no comment and no literal. -/
def Byte.isPlain (b : Byte) : Bool :=
  b != Byte.quote && b != Byte.apostrophe && b != Byte.slash && b != Byte.hash &&
    b != Byte.dollar && b != Byte.atSign

namespace Lexeme

/-- The code in an element, without that in holes. -/
def codeText : Lexeme → Bytes
  | .code text => text
  | _ => []

/-- The braces in the code are closed in turn. -/
def Balanced (es : List Lexeme) : Prop := Bytes.depthAfter? 0 (es.flatMap codeText) = some 0

instance (es : List Lexeme) : Decidable (Balanced es) := inferInstanceAs (Decidable (_ = _))

/-- The element begins with a dollar or an at sign. -/
def hasSigils : Lexeme → Bool
  | .literal q _ => !q.sigils.isEmpty
  | _ => false

end Lexeme

mutual

/-- The element can be told from its text. -/
def Lexeme.Sound : Lexeme → Prop
  | .code text => ∀ b ∈ text, Byte.isPlain b = true
  | .lineComment text => Byte.newline ∉ text
  | .blockComment text => ¬ [Byte.star, Byte.slash] <:+: text
  | .literal q parts => Part.AllSound q parts
  | .raw quotes text =>
    3 ≤ quotes ∧ text ≠ [] ∧ text.head? ≠ some Byte.quote ∧ text.getLast? ≠ some Byte.quote ∧
      ¬ List.replicate quotes Byte.quote <:+: text

/-- The elements are sound and can be told from each other, behind the byte `last`: no quote follows
a literal that ends in one, and no literal with a dollar or an at sign follows an identifier. -/
def Lexeme.Arranged : Option Byte → List Lexeme → Prop
  | _, [] => True
  | last, e :: es =>
    e.Sound ∧ (e.hasSigils = true → last.any Byte.isWord = false) ∧
      (e.render.getLast? = some Byte.quote → (Lexeme.renderAll es).head? ≠ some Byte.quote) ∧
      Lexeme.Arranged (e.render.getLast?.or last) es

/-- The part may stand in a literal. -/
def Part.Sound (q : Quoting) : Part → Prop
  | .byte b => q.Admits b
  | .escape b => q.isVerbatim = false ∧ b ≠ Byte.newline
  | .quotes => q.isVerbatim = true
  | .braces => q.isInterpolated = true
  | .hole content =>
    q.isInterpolated = true ∧ Lexeme.Balanced content ∧
      (Lexeme.renderAll content).head? ≠ some Byte.openBrace ∧
      Lexeme.Arranged (some Byte.openBrace) content

/-- The parts may all stand in a literal. -/
def Part.AllSound (q : Quoting) : List Part → Prop
  | [] => True
  | p :: ps => p.Sound q ∧ Part.AllSound q ps

end

mutual

def Lexeme.decidableSound : (e : Lexeme) → Decidable e.Sound
  | .code text => List.decidableBAll (fun b => Byte.isPlain b = true) text
  | .lineComment text => inferInstanceAs (Decidable (Byte.newline ∉ text))
  | .blockComment text => inferInstanceAs (Decidable (¬ [Byte.star, Byte.slash] <:+: text))
  | .literal q parts => Part.decidableAllSound q parts
  | .raw quotes text =>
    inferInstanceAs (Decidable (3 ≤ quotes ∧ text ≠ [] ∧ _ ∧ _ ∧ ¬ _ <:+: text))

def Lexeme.decidableArranged : (last : Option Byte) → (es : List Lexeme) →
    Decidable (Lexeme.Arranged last es)
  | _, [] => inferInstanceAs (Decidable True)
  | last, e :: es =>
    have := e.decidableSound
    have := Lexeme.decidableArranged (e.render.getLast?.or last) es
    inferInstanceAs (Decidable (e.Sound ∧ (_ → _) ∧ (_ → _ ≠ _) ∧ Lexeme.Arranged _ es))

def Part.decidableSound (q : Quoting) : (p : Part) → Decidable (p.Sound q)
  | .byte b => inferInstanceAs (Decidable (q.Admits b))
  | .escape b => inferInstanceAs (Decidable (q.isVerbatim = false ∧ b ≠ Byte.newline))
  | .quotes => inferInstanceAs (Decidable (q.isVerbatim = true))
  | .braces => inferInstanceAs (Decidable (q.isInterpolated = true))
  | .hole content =>
    have := Lexeme.decidableArranged (some Byte.openBrace) content
    inferInstanceAs (Decidable (q.isInterpolated = true ∧ Lexeme.Balanced content ∧ _ ≠ _ ∧
      Lexeme.Arranged _ content))

def Part.decidableAllSound (q : Quoting) : (ps : List Part) → Decidable (Part.AllSound q ps)
  | [] => inferInstanceAs (Decidable True)
  | p :: ps =>
    have := p.decidableSound q
    have := Part.decidableAllSound q ps
    inferInstanceAs (Decidable (p.Sound q ∧ Part.AllSound q ps))

end

instance (last : Option Byte) (es : List Lexeme) : Decidable (Lexeme.Arranged last es) :=
  Lexeme.decidableArranged last es

/-! ### What the mask should be -/

namespace Lexeme

/-- For each byte of an element, whether it is live code: that is its own code and the newline that
ends a line comment, unless the element stands in a hole. -/
def verdicts (live : Bool) : Lexeme → List Bool
  | .code text => List.replicate text.length live
  | .lineComment text => List.replicate (text.length + 2) false ++ [live]
  | e => List.replicate e.render.length false

/-- What is shown of an element: its own code as it is, of the rest only the newlines. -/
def shown : Lexeme → Bytes
  | .code text => text
  | e => e.render.map fun b => if b = Byte.newline then b else Byte.space

/-! ### Ends and verdicts -/

theorem verdicts_false (e : Lexeme) : e.verdicts false = List.replicate e.render.length false := by
  cases e with
  | code text => rfl
  | lineComment text =>
    rw [verdicts, render, ← List.replicate_succ']
    simp
  | blockComment text => rfl
  | literal q parts => rfl
  | raw quotes text => rfl

theorem flatMap_verdicts_false (es : List Lexeme) :
    es.flatMap (verdicts false) = List.replicate (renderAll es).length false := by
  induction es with
  | nil => rfl
  | cons e es ih =>
    rw [List.flatMap_cons, verdicts_false, ih, ← List.replicate_add, renderAll, List.length_append]

theorem getLast?_render_literal (q : Quoting) (parts : List Part) :
    (literal q parts).render.getLast? = some q.mark := by
  rw [render, ← List.cons_append, ← List.append_assoc, List.getLast?_concat]

theorem getLast?_render_raw {quotes : Nat} (hquotes : quotes ≠ 0) (text : Bytes) :
    (raw quotes text).render.getLast? = some Byte.quote := by
  obtain ⟨n, rfl⟩ := Nat.exists_eq_succ_of_ne_zero hquotes
  rw [render, ← List.append_assoc]
  nth_rewrite 2 [List.replicate_succ']
  rw [← List.append_assoc, List.getLast?_concat]

theorem length_verdicts (live : Bool) (e : Lexeme) :
    (e.verdicts live).length = e.render.length := by
  cases e <;> simp [verdicts, render]

end Lexeme

end SymbolAtlas
