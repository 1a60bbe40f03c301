import SymbolAtlas.Text.Bytes

/-!
# Scanning C# for live code

A one-pass automaton that tells, for every byte of a C# text, whether it is live code or part of a
comment, a preprocessor line, a character literal or a string. On its way it writes down the text
with all but the live code blanked, and where lines begin. It knows just enough of the token grammar
for that:

* comments of both kinds, and lines whose first visible byte is `#`;
* regular, verbatim, interpolated and raw strings, with their two kinds of escape;
* interpolation holes, which hold code of their own but do not count as live code;
* recovery: a character literal or a one-line string that is not closed ends with its line.

`step` decides what the next byte begins, looking ahead only inside one token; `scan` runs it over a
whole text.
-/

namespace SymbolAtlas.Scanner

/-- The kinds of string literal. A raw string is closed by as many quotes as opened it; its holes
are opened by at least `dollars` braces, and it has none when `dollars` is zero. -/
inductive StringKind where
  | regular
  | verbatim
  | interpolated
  | interpolatedVerbatim
  | raw (quotes dollars : Nat)
  deriving DecidableEq, Repr

namespace StringKind

/-- Backslashes are ordinary bytes, a doubled quote stands for one, and lines may end inside. -/
def isVerbatim : StringKind → Bool
  | .verbatim | .interpolatedVerbatim => true
  | _ => false

/-- A single brace opens a hole. -/
def isInterpolated : StringKind → Bool
  | .interpolated | .interpolatedVerbatim => true
  | _ => false

end StringKind

/-- What the scanner is inside of, other than live code. A hole counts the braces opened in it. -/
inductive Mode where
  | lineComment
  | blockComment
  | string (kind : StringKind)
  | character
  | hole (depth : Nat)
  deriving DecidableEq, Repr

/-- The scanner between two bytes. -/
structure State where
  /-- The modes entered and not left, innermost first; none of them means live code. -/
  modes : List Mode := []
  /-- Something visible has been seen on this line. -/
  lineHasCode : Bool := false
  /-- Bytes of the token just begun that are still to come. -/
  skip : Nat := 0
  /-- The byte before. -/
  last : Option Byte := none
  deriving DecidableEq, Repr

/-- How a byte is written into the masked text. -/
inductive Shade where
  /-- As it is. -/
  | keep
  /-- As a space, unless it is a newline. -/
  | blank
  /-- As a space, whatever it is. -/
  | erase
  deriving DecidableEq, Repr

/-- What is written for a byte. -/
def Shade.write : Shade → Byte → Byte
  | .keep, b => b
  | .blank, b => if b == Byte.newline then b else Byte.space
  | .erase, _ => Byte.space

/-- The effect of the token that begins at a byte. -/
structure Move where
  modes : List Mode
  lineHasCode : Bool
  /-- Bytes the token takes, this one included. -/
  width : Nat := 1
  /-- The byte is live code. -/
  code : Bool := false
  /-- How the byte is written. The other bytes of a longer token are blanked. -/
  shade : Shade := .blank
  deriving DecidableEq, Repr

/-- The string literal that opens at the head of `s`, with the length of its opening delimiter.
Dollar and at signs in front belong to it unless they directly follow an identifier. -/
def stringAt? (last : Option Byte) (s : Bytes) : Option (StringKind × Nat) :=
  let marks := s.takeWhile fun b => b == Byte.dollar || b == Byte.atSign
  let dollars := marks.count Byte.dollar
  let ats := marks.count Byte.atSign
  let quotes := Bytes.runLength Byte.quote (s.drop marks.length)
  if 2 ≤ ats || quotes == 0 then none
  else if !marks.isEmpty && last.any Byte.isWord then none
  else if 3 ≤ quotes && ats == 0 then some (.raw quotes dollars, marks.length + quotes)
  else
    let kind : StringKind :=
      if dollars == 0 then if ats == 0 then .regular else .verbatim
      else if ats == 0 then .interpolated else .interpolatedVerbatim
    some (kind, marks.length + 1)

/-- The comment, preprocessor line or literal that begins at `b`, in live code or in a hole. -/
def opening? (st : State) (b : Byte) (rest : Bytes) : Option Move :=
  if b == Byte.slash && rest.head? == some Byte.slash then
    some { modes := .lineComment :: st.modes, lineHasCode := st.lineHasCode, width := 2 }
  else if b == Byte.slash && rest.head? == some Byte.star then
    some { modes := .blockComment :: st.modes, lineHasCode := st.lineHasCode, width := 2 }
  else if b == Byte.hash && !st.lineHasCode && st.modes.isEmpty then
    some { modes := .lineComment :: st.modes, lineHasCode := st.lineHasCode }
  else
    match stringAt? st.last (b :: rest) with
    | some (kind, width) =>
      some { modes := .string kind :: st.modes, lineHasCode := true, width }
    | none =>
      if b == Byte.apostrophe then some { modes := .character :: st.modes, lineHasCode := true }
      else none

/-- The modes after byte `b` of a hole with `depth` open braces. -/
def afterHoleByte (outer : List Mode) (depth : Nat) (b : Byte) : List Mode :=
  if b == Byte.openBrace then .hole (depth + 1) :: outer
  else if b == Byte.closeBrace then
    if depth = 0 then outer else .hole (depth - 1) :: outer
  else .hole depth :: outer

/-- Leaving a mode at the end of its line. The newline is live code if nothing is left to be in. -/
def leaveAtNewline (outer : List Mode) : Move :=
  { modes := outer, lineHasCode := false, code := outer.isEmpty, shade := .keep }

/-- The backslash `b` takes the next byte with it, unless that ends the line. -/
def escapes (b : Byte) (rest : Bytes) : Bool :=
  b == Byte.backslash && rest.head?.any (· != Byte.newline)

/-- One token inside a raw string. -/
def rawStep (outer : List Mode) (quotes dollars : Nat) (b : Byte) (rest : Bytes) :
    List Mode × Nat :=
  let inside := .string (.raw quotes dollars) :: outer
  if b == Byte.quote then
    let run := Bytes.runLength Byte.quote (b :: rest)
    (if quotes ≤ run then outer else inside, run)
  else if dollars != 0 && b == Byte.openBrace then
    let run := Bytes.runLength Byte.openBrace (b :: rest)
    (if dollars ≤ run then .hole 0 :: inside else inside, run)
  else (inside, 1)

/-- One token inside a string that is not raw and does not end with this line. -/
def quotedStep (outer : List Mode) (kind : StringKind) (b : Byte) (rest : Bytes) :
    List Mode × Nat :=
  let inside := .string kind :: outer
  if !kind.isVerbatim && escapes b rest then (inside, 2)
  else if kind.isVerbatim && b == Byte.quote && rest.head? == some Byte.quote then (inside, 2)
  else if kind.isInterpolated && b == Byte.openBrace then
    if rest.head? == some Byte.openBrace then (inside, 2) else (.hole 0 :: inside, 1)
  else if b == Byte.quote then (outer, 1)
  else (inside, 1)

/-- One token inside a string. -/
def stringStep (outer : List Mode) (kind : StringKind) (lineHasCode : Bool) (b : Byte)
    (rest : Bytes) : Move :=
  let stay := lineHasCode && b != Byte.newline
  match kind with
  | .raw quotes dollars =>
    let (modes, width) := rawStep outer quotes dollars b rest
    { modes, lineHasCode := stay, width }
  | _ =>
    if b == Byte.newline && !kind.isVerbatim then leaveAtNewline outer
    else
      let (modes, width) := quotedStep outer kind b rest
      { modes, lineHasCode := stay, width }

/-- What the token beginning at `b` does to the scanner. -/
def step (st : State) (b : Byte) (rest : Bytes) : Move :=
  match st.modes with
  | [] =>
    (opening? st b rest).getD
      { modes := []
        lineHasCode := b != Byte.newline && (st.lineHasCode || !b.isBlank)
        code := true
        shade := .keep }
  | .hole depth :: outer =>
    (opening? st b rest).getD
      { modes := afterHoleByte outer depth b, lineHasCode := st.lineHasCode }
  | .lineComment :: outer =>
    if b == Byte.newline then leaveAtNewline outer
    else { modes := st.modes, lineHasCode := st.lineHasCode, shade := .erase }
  | .blockComment :: outer =>
    if b == Byte.star && rest.head? == some Byte.slash then
      { modes := outer, lineHasCode := st.lineHasCode, width := 2 }
    else if b == Byte.newline then { modes := st.modes, lineHasCode := false, shade := .keep }
    else { modes := st.modes, lineHasCode := st.lineHasCode, shade := .erase }
  | .character :: outer =>
    if escapes b rest then { modes := st.modes, lineHasCode := st.lineHasCode, width := 2 }
    else if b == Byte.newline then leaveAtNewline outer
    else
      { modes := if b == Byte.apostrophe then outer else st.modes
        lineHasCode := st.lineHasCode
        shade := .erase }
  | .string kind :: outer => stringStep outer kind st.lineHasCode b rest

/-- What the scanner writes down about one byte. -/
structure Note where
  /-- What stands for the byte in the masked text. -/
  shown : Byte
  /-- The byte is live code. -/
  code : Bool
  /-- The byte is a newline that begins a token. -/
  endsLine : Bool
  deriving DecidableEq, Repr

/-- The scanner past byte `b`, and its note on that byte. -/
def advance (st : State) (b : Byte) (rest : Bytes) : State × Note :=
  match st.skip with
  | skip + 1 =>
    ({ st with skip, last := some b },
      { shown := Shade.blank.write b, code := false, endsLine := false })
  | 0 =>
    let move := step st b rest
    ({ modes := move.modes, lineHasCode := move.lineHasCode, skip := move.width - 1
       last := some b },
      { shown := move.shade.write b, code := move.code, endsLine := b == Byte.newline })

/-- All that the scanner has written down, newest first. -/
structure Transcript where
  shown : Bytes := []
  code : List Bool := []
  /-- Where lines begin. -/
  lineStarts : List Nat := [0]
  deriving DecidableEq, Repr

/-- Adds the note on the byte at `offset`. -/
def Transcript.add (t : Transcript) (offset : Nat) (note : Note) : Transcript where
  shown := note.shown :: t.shown
  code := note.code :: t.code
  lineStarts := if note.endsLine then (offset + 1) :: t.lineStarts else t.lineStarts

/-- Goes on with the transcript for `s`, which begins at `offset`, with a scanner in state `st`. -/
def scanFrom (t : Transcript) (offset : Nat) (st : State) : Bytes → Transcript
  | [] => t
  | b :: rest =>
    let (st, note) := advance st b rest
    scanFrom (t.add offset note) (offset + 1) st rest

/-- The transcript for a text. -/
def scan (s : Bytes) : Transcript :=
  scanFrom {} 0 {} s

theorem length_shown_scanFrom (t : Transcript) (offset : Nat) (st : State) (s : Bytes) :
    (scanFrom t offset st s).shown.length = t.shown.length + s.length := by
  induction s generalizing t offset st with
  | nil => rfl
  | cons b rest ih => simp [scanFrom, ih, Transcript.add]; omega

theorem length_code_scanFrom (t : Transcript) (offset : Nat) (st : State) (s : Bytes) :
    (scanFrom t offset st s).code.length = t.code.length + s.length := by
  induction s generalizing t offset st with
  | nil => rfl
  | cons b rest ih => simp [scanFrom, ih, Transcript.add]; omega

end SymbolAtlas.Scanner
