import SymbolAtlas.Text.Utf8

/-!
# Globs

Patterns for paths. A question mark stands for one byte and a star for any number of bytes, none of
them a slash; a double star between slashes stands for any number of folders. Brackets list
characters and ranges, a leading `!` or `^` excluding them; braces list alternatives; a backslash
takes the character after it literally.

A pattern with alternatives is kept as the list of the patterns it stands for.

* `Glob.ofChars?` reads a pattern.
* `Glob.accepts` tells whether a path fits it.
-/

namespace SymbolAtlas

/-- A part of a pattern. -/
inductive GlobPart where
  | byte (b : Byte)
  /-- Any byte but a slash. -/
  | one
  /-- Any bytes but slashes. -/
  | run
  /-- Any bytes at all. -/
  | anything
  /-- A byte within one of the ranges, or within none of them when `negated`. -/
  | oneOf (negated : Bool) (ranges : List (Byte × Byte))
  deriving DecidableEq, Repr

/-- A pattern, as the list of its alternatives. -/
abbrev Glob := List (List GlobPart)

namespace Glob

/-! ### Matching -/

/-- What is left of the bytes after each run of bytes that satisfy `p` from their front. -/
def remainders (p : Byte → Bool) : Bytes → List Bytes
  | [] => [[]]
  | b :: rest => (b :: rest) :: (if p b then remainders p rest else [])

/-- The bytes fit the parts. -/
def fits : List GlobPart → Bytes → Bool
  | [], s => s.isEmpty
  | .byte b :: parts, c :: s => b == c && fits parts s
  | .one :: parts, c :: s => c != Byte.slash && fits parts s
  | .oneOf negated ranges :: parts, c :: s =>
    (ranges.any (fun (low, high) => low ≤ c && c ≤ high) != negated) && fits parts s
  | .run :: parts, s => (remainders (· != Byte.slash) s).any (fits parts)
  | .anything :: parts, s => (remainders (fun _ => true) s).any (fits parts)
  | _ :: _, [] => false

/-- The path fits one of the alternatives. -/
def accepts (g : Glob) (path : Bytes) : Bool := g.any (fits · path)

/-! ### Reading -/

/-- What a pattern is made of while it is read. -/
inductive Piece where
  | literal (c : Char)
  | one
  | run
  /-- Folders at the start: none, or any number and a slash. -/
  | anyFoldersFirst
  /-- A slash, or a slash, folders and a slash. -/
  | anyFoldersBetween
  /-- A slash and anything below. -/
  | anythingBelow
  | oneOf (negated : Bool) (ranges : List (Char × Char))
  | oneAlternativeOf (alternatives : List Glob)

/-- The pattern for one after the other. -/
def followedBy (g h : Glob) : Glob := g.flatMap fun a => h.map fun b => a ++ b

/-- The bytes of a character. -/
def bytesOf (c : Char) : List GlobPart := (String.utf8EncodeChar c).map .byte

/-- The ranges of bytes that a range of characters stands for. Each byte of a character beyond
ASCII counts by itself. -/
def byteRanges : Char × Char → List (Byte × Byte)
  | (low, high) =>
    let single (b : Byte) := (b, b)
    let first := String.utf8EncodeChar low
    let last := String.utf8EncodeChar high
    if low == high then first.map single
    else
      match first.getLast?, last with
      | some a, b :: rest => first.dropLast.map single ++ [(a, b)] ++ rest.map single
      | _, _ => []

/-- The pattern for a piece. -/
def Piece.toGlob : Piece → Glob
  | .literal c => [bytesOf c]
  | .one => [[.one]]
  | .run => [[.run]]
  | .anyFoldersFirst => [[], [.byte Byte.slash], [.anything, .byte Byte.slash]]
  | .anyFoldersBetween =>
    [[.byte Byte.slash], [.byte Byte.slash, .anything, .byte Byte.slash]]
  | .anythingBelow => [[.byte Byte.slash, .anything]]
  | .oneOf negated ranges => [[.oneOf negated (ranges.flatMap byteRanges)]]
  | .oneAlternativeOf alternatives =>
    match (alternatives.filter fun g => g != [[]]).flatten with
    | [] => [[]]
    | g => g

/-- The pattern for pieces, the last one first. -/
def ofPieces (pieces : List Piece) : Glob :=
  pieces.foldl (fun g piece => followedBy piece.toGlob g) [[]]

/-- What has been read of a pattern. -/
structure Reading where
  /-- The pieces of the innermost alternative that is open, the last one first. -/
  pieces : List Piece := []
  /-- For each open brace, the pieces in front of it and the alternatives before the open one. -/
  outer : List (List Piece × List Glob) := []
  /-- The character read last. -/
  previous : Option Char := none

namespace Reading

/-- Adds a piece. -/
def push (r : Reading) (piece : Piece) : Reading := { r with pieces := piece :: r.pieces }

/-- Opens a brace. -/
def openBrace (r : Reading) : Reading :=
  { r with pieces := [], outer := (r.pieces, []) :: r.outer }

/-- Ends an alternative and begins the next; outside of braces a comma stands for itself. -/
def comma (r : Reading) : Reading :=
  match r.outer with
  | (before, done) :: outer =>
    { r with pieces := [], outer := (before, done ++ [ofPieces r.pieces]) :: outer }
  | [] => r.push (.literal ',')

/-- Closes a brace, if one is open. -/
def closeBrace? (r : Reading) : Option Reading :=
  match r.outer with
  | (before, done) :: outer =>
    some { r with
      pieces := .oneAlternativeOf (done ++ [ofPieces r.pieces]) :: before, outer }
  | [] => none

/-- Reads a double star, `rest` being what follows it: the pieces with it, and whether the next
character belongs to it. -/
def doubleStar (r : Reading) (rest : List Char) : Reading × Bool :=
  let plain := (r.push .run).push .run
  let slashNext := rest.head? == some '/'
  let closes := rest.isEmpty || (!r.outer.isEmpty &&
    (rest.head? == some ',' || rest.head?.any fun c => c.toNat == 0x7D))
  let opens := r.previous == some '/' ||
    (!r.outer.isEmpty && (r.previous == some ',' || r.previous.any fun c => c.toNat == 0x7B))
  match r.pieces with
  | [] => if rest.isEmpty || slashNext then (r.push .anyFoldersFirst, slashNext) else (plain, false)
  | last :: before =>
    if !opens || !(closes || slashNext) then (plain, false)
    else
      let piece : Piece :=
        match last with
        | .anyFoldersFirst => .anyFoldersFirst
        | .anythingBelow => .anythingBelow
        | _ => if closes then .anythingBelow else .anyFoldersBetween
      ({ r with pieces := piece :: before }, slashNext && !closes)

end Reading

/-- What has been read of a list of characters between brackets. -/
structure RangesReading where
  /-- The ranges, the last one first. -/
  ranges : List (Char × Char) := []
  isFirst : Bool := true
  /-- A hyphen has been read that may join the last character to the next. -/
  joining : Bool := false

/-- Reads characters and ranges up to the closing bracket: the ranges, and what follows. A bracket
or a hyphen in first place, and a hyphen in last place, stand for themselves. -/
def ranges? (r : RangesReading) : List Char → Option (List (Char × Char) × List Char)
  | [] => none
  | c :: rest =>
    let next : RangesReading := { r with isFirst := false, joining := false }
    if c == ']' && !r.isFirst then
      some ((if r.joining then ('-', '-') :: r.ranges else r.ranges).reverse, rest)
    else if c == '-' && !r.isFirst && !r.joining then ranges? { next with joining := true } rest
    else if r.joining then
      match r.ranges with
      | (low, _) :: older =>
        if c < low then none else ranges? { next with ranges := (low, c) :: older } rest
      | [] => none
    else ranges? { next with ranges := (c, c) :: r.ranges } rest

/-- Reads a pattern of at most `fuel` characters. -/
def read? : Nat → Reading → List Char → Option Reading
  | _, r, [] => if r.outer.isEmpty then some r else none
  | 0, _, _ => none
  | fuel + 1, r, c :: rest =>
    let go (r : Reading) (last : Char) (rest : List Char) :=
      read? fuel { r with previous := some last } rest
    if c == '?' then go (r.push .one) c rest
    else if c == '*' then
      match rest with
      | '*' :: rest =>
        match r.doubleStar rest with
        | (r, true) => go r '/' (rest.drop 1)
        | (r, false) => go r '*' rest
      | _ => go (r.push .run) c rest
    else if c == '[' then
      let negated := rest.head? == some '!' || rest.head? == some '^'
      match ranges? {} (if negated then rest.drop 1 else rest) with
      | some (ranges, rest) => go (r.push (.oneOf negated ranges)) ']' rest
      | none => none
    else if c.toNat == 0x7B then go r.openBrace c rest
    else if c.toNat == 0x7D then (r.closeBrace?).bind fun r => go r c rest
    else if c == ',' then go r.comma c rest
    else if c == '\\' then
      match rest with
      | d :: rest => go (r.push (.literal d)) d rest
      | [] => none
    else go (r.push (.literal c)) c rest

/-- The pattern that characters spell, if they are one. -/
def ofChars? (cs : List Char) : Option Glob :=
  (read? cs.length {} cs).map fun r => ofPieces r.pieces

end Glob

end SymbolAtlas
