import SymbolAtlas.Text.Bytes

/-!
# UTF-8

Characters and their encoded bytes. `encode` writes a list of characters, `decode?` reads one and
refuses whatever is not well-formed UTF-8: stray continuation bytes, overlong forms, surrogates and
values past the last code point.
-/

namespace SymbolAtlas.Utf8

/-- The bytes of a list of characters. -/
def encode (cs : List Char) : Bytes :=
  cs.flatMap String.utf8EncodeChar

/-- The number of bytes a list of characters is encoded in. -/
def width (cs : List Char) : Nat :=
  cs.foldl (fun n c => n + c.utf8Size) 0

/-- A continuation byte, whose six low bits extend the character begun before it. -/
def isContinuation (b : Byte) : Bool :=
  0x80 ≤ b && b ≤ 0xBF

/-- The character whose leading bits are `lead` and whose further bits are the low six of `tail`. -/
def assemble (lead : Nat) (tail : Bytes) : Char :=
  Char.ofNat (tail.foldl (fun n b => n * 64 + (b.toNat - 0x80)) lead)

/-- The second byte may be `b` after the first byte `a` of a three-byte character. -/
def second3 (a b : Byte) : Bool :=
  if a == 0xE0 then 0xA0 ≤ b && b ≤ 0xBF
  else if a == 0xED then 0x80 ≤ b && b ≤ 0x9F
  else isContinuation b

/-- The second byte may be `b` after the first byte `a` of a four-byte character. -/
def second4 (a b : Byte) : Bool :=
  if a == 0xF0 then 0x90 ≤ b && b ≤ 0xBF
  else if a == 0xF4 then 0x80 ≤ b && b ≤ 0x8F
  else isContinuation b

/-- The first character of `s` and the number of bytes it takes. -/
def first? (s : Bytes) : Option (Char × Nat) :=
  match s with
  | [] => none
  | a :: rest =>
    if a < 0x80 then some (Char.ofNat a.toNat, 1)
    else if 0xC2 ≤ a && a ≤ 0xDF then
      match rest with
      | b :: _ => if isContinuation b then some (assemble (a.toNat - 0xC0) [b], 2) else none
      | _ => none
    else if 0xE0 ≤ a && a ≤ 0xEF then
      match rest with
      | b :: c :: _ =>
        if second3 a b && isContinuation c then some (assemble (a.toNat - 0xE0) [b, c], 3) else none
      | _ => none
    else if 0xF0 ≤ a && a ≤ 0xF4 then
      match rest with
      | b :: c :: d :: _ =>
        if second4 a b && isContinuation c && isContinuation d then
          some (assemble (a.toNat - 0xF0) [b, c, d], 4)
        else none
      | _ => none
    else none

/-- Reads characters onto `done`, newest first; `skip` bytes still belong to the last of them. -/
def decodeOnto (done : List Char) (skip : Nat) : Bytes → Option (List Char)
  | [] => if skip = 0 then some done.reverse else none
  | b :: rest =>
    match skip with
    | skip + 1 => decodeOnto done skip rest
    | 0 =>
      match first? (b :: rest) with
      | some (c, n) => decodeOnto (c :: done) (n - 1) rest
      | none => none

/-- The characters of well-formed UTF-8. -/
def decode? (s : Bytes) : Option (List Char) :=
  decodeOnto [] 0 s

end SymbolAtlas.Utf8

namespace SymbolAtlas.Bytes

/-- The UTF-8 bytes of a string. -/
def ofString (s : String) : Bytes :=
  s.toUTF8.data.toList

/-- The string that well-formed bytes encode; bytes that are not well formed give the empty
string. -/
def toText (s : Bytes) : String :=
  String.ofList ((Utf8.decode? s).getD [])

/-- The text of `s` between two offsets. -/
def textAt (s : Bytes) (start stop : Nat) : String :=
  (s.slice start stop).toText

/-- An offset at which a character begins, or the end of the text. -/
def isBoundary (s : Bytes) (offset : Nat) : Bool :=
  offset == 0 || offset == s.length ||
    (match s[offset]? with
      | some b => !Utf8.isContinuation b
      | none => false)

end SymbolAtlas.Bytes
