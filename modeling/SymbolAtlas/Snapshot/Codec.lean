import SymbolAtlas.Numeric.Binary
import SymbolAtlas.Text.Utf8

/-!
# Binary codecs

A codec writes values as bytes and reads them back from the front of a list of bytes. Numbers are
little-endian and of fixed width; a list or a text begins with its length in eight bytes, a choice
among several with its position in four bytes, and an optional value with one byte, zero or one.
-/

namespace SymbolAtlas

/-- A way to write values of a type as bytes, and to read them. -/
structure Codec (α : Type) where
  write : α → Bytes
  /-- The value at the front and the bytes after it. -/
  read : Bytes → Option (α × Bytes)

namespace Codec

variable {α β : Type}

/-- The bytes of a number, the lowest first. -/
def littleEndian : Nat → Nat → Bytes
  | 0, _ => []
  | width + 1, n => UInt8.ofNat (n % 256) :: littleEndian width (n / 256)

/-- The number that bytes stand for, the lowest first. -/
def ofLittleEndian (bytes : Bytes) : Nat :=
  bytes.foldr (fun b n => b.toNat + 256 * n) 0

/-- The first `count` bytes and the rest. -/
def readBytes (count : Nat) (s : Bytes) : Option (Bytes × Bytes) :=
  let taken := s.take count
  if taken.length = count then some (taken, s.drop count) else none

/-- Naturals in `width` bytes. -/
def word (width : Nat) : Codec Nat where
  write := littleEndian width
  read s := (readBytes width s).map fun (bytes, rest) => (ofLittleEndian bytes, rest)

/-- Lengths, lines and positions. -/
def size : Codec Nat := word 8

/-- Values through another form of them. -/
def through (c : Codec α) (toForm : β → α) (ofForm : α → β) : Codec β where
  write b := c.write (toForm b)
  read s := (c.read s).map fun (a, rest) => (ofForm a, rest)

/-- Values through another form of them that not every value of the form stands for. -/
def throughSome (c : Codec α) (toForm : β → α) (ofForm : α → Option β) : Codec β where
  write b := c.write (toForm b)
  read s := (c.read s).bind fun (a, rest) => (ofForm a).map fun b => (b, rest)

/-- One value after the other. -/
def pair (c : Codec α) (d : Codec β) : Codec (α × β) where
  write p := c.write p.1 ++ d.write p.2
  read s := do
    let (a, s) ← c.read s
    let (b, s) ← d.read s
    some ((a, b), s)

/-- Reads `count` values, putting them in front of `done`, the last one first. -/
def readMany (c : Codec α) : Nat → List α → Bytes → Option (List α × Bytes)
  | 0, done, s => some (done.reverse, s)
  | count + 1, done, s =>
    match c.read s with
    | some (a, s) => readMany c count (a :: done) s
    | none => none

/-- Lists, with their length in front. -/
def list (c : Codec α) : Codec (List α) where
  write items := size.write items.length ++ items.flatMap c.write
  read s := (size.read s).bind fun (count, s) => readMany c count [] s

/-- Truth values. -/
def bool : Codec Bool :=
  (word 1).throughSome (fun b => if b then 1 else 0) fun n =>
    if n = 0 then some false else if n = 1 then some true else none

/-- Values that may be missing. -/
def option (c : Codec α) : Codec (Option α) where
  write
    | none => bool.write false
    | some a => bool.write true ++ c.write a
  read s :=
    match bool.read s with
    | some (true, s) => (c.read s).map fun (a, s) => (some a, s)
    | some (false, s) => some (none, s)
    | none => none

/-- One of the values in a list, by its position. -/
def choice [DecidableEq α] (all : List α) : Codec α :=
  (word 4).throughSome (fun a => all.idxOf a) fun n => all[n]?

/-- Strings, with the length of their encoding in front. -/
def text : Codec String where
  write s :=
    let bytes := Bytes.ofString s
    size.write bytes.length ++ bytes
  read s := do
    let (count, s) ← size.read s
    let (bytes, s) ← readBytes count s
    let cs ← Utf8.decode? bytes
    some (String.ofList cs, s)

/-- Single numbers, by their bit pattern. -/
def single : Codec Single :=
  (word 4).through (fun x => x.bits.toNat) fun n => ⟨UInt32.ofNat n⟩

end Codec

end SymbolAtlas
