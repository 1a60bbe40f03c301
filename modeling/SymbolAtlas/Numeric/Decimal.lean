import SymbolAtlas.Numeric.Binary

/-!
# Shortest decimals

Writing a binary floating-point number with the fewest decimal digits that read back as the same
number. The reals that round to a value form an interval around it, whose ends belong to it when
the significand is even. For one digit, two digits and so on, the two neighbours of the value on
that decimal grid are tested against the interval; the first grid with a hit wins, and of two hits
the nearer.

A `Layout` says where positional notation ends and an exponent begins.
-/

namespace SymbolAtlas

/-- The number `digits * 10 ^ exponent`. -/
structure Decimal where
  digits : Nat
  exponent : Int
  deriving DecidableEq, Repr

namespace Decimal

/-- Compares `a * 10 ^ i` with `n * 2 ^ j`. -/
def compareScaled (a : Nat) (i : Int) (n : Nat) (j : Int) : Ordering :=
  compare (a * Nat.pow 10 i.toNat * Nat.pow 2 (-j).toNat)
    (n * Nat.pow 2 j.toNat * Nat.pow 10 (-i).toNat)

/-- The decimal lies among the reals that round to `significand * 2 ^ exponent` in format `f`. -/
def readsBack (f : Format) (significand : Nat) (exponent : Int) (d : Decimal) : Bool :=
  let narrowBelow := significand == Nat.pow 2 f.fractionBits && f.leastExponent < exponent
  let low := if narrowBelow then 4 * significand - 1 else 4 * significand - 2
  let atLow := compareScaled d.digits d.exponent low (exponent - 2)
  let atHigh := compareScaled d.digits d.exponent (4 * significand + 2) (exponent - 2)
  let ends := significand % 2 == 0
  (atLow == .gt || (ends && atLow == .eq)) && (atHigh == .lt || (ends && atHigh == .eq))

/-- The least `k` with `significand * 2 ^ exponent < 10 ^ k`, for a positive significand. -/
def magnitude (significand : Nat) (exponent : Int) : Int :=
  let guess := ((significand.log2 : Int) + exponent) * 30103 / 100000 - 1
  let above (k : Int) := compareScaled 1 k significand exponent == .gt
  ((List.range 5).map fun (i : Nat) => guess + (i : Int)).find? above |>.getD (guess + 5)

/-- Moves trailing zeros of the digits into the exponent, at most `fuel` of them. -/
def strip (fuel : Nat) (d : Decimal) : Decimal :=
  match fuel with
  | 0 => d
  | fuel + 1 =>
    if d.digits ≠ 0 && d.digits % 10 = 0 then strip fuel ⟨d.digits / 10, d.exponent + 1⟩ else d

/-- The neighbour of the value with `count` digits that reads back, the nearer of two. -/
def withDigits? (f : Format) (significand : Nat) (exponent top : Int) (count : Nat) :
    Option Decimal :=
  let grid := top - count
  let num := significand * Nat.pow 2 exponent.toNat * Nat.pow 10 (-grid).toNat
  let den := Nat.pow 2 (-exponent).toNat * Nat.pow 10 grid.toNat
  let below : Decimal := ⟨num / den, grid⟩
  let above : Decimal := ⟨num / den + 1, grid⟩
  match readsBack f significand exponent below, readsBack f significand exponent above with
  | true, true => some (if 2 * (num % den) ≤ den then below else above)
  | true, false => some below
  | false, true => some above
  | false, false => none

/-- The decimal of fewest digits that reads back as `significand * 2 ^ exponent` in format `f`. -/
def shortest (f : Format) (significand : Nat) (exponent : Int) : Decimal :=
  if significand = 0 then ⟨0, 0⟩
  else
    let top := magnitude significand exponent
    let counts := (List.range 17).map (· + 1)
    let found := counts.findSome? (withDigits? f significand exponent top)
    let whole : Decimal :=
      ⟨significand * Nat.pow 2 exponent.toNat * Nat.pow 5 (-exponent).toNat,
        -((-exponent).toNat : Int)⟩
    strip 400 (found.getD whole)

/-- The digits of a number, as characters. -/
def digitText (d : Decimal) : List Char :=
  (Nat.repr d.digits).toList

/-- The decimal without an exponent and with no more digits than it needs. -/
def plain (d : Decimal) : String :=
  let text := d.digitText
  let length := text.length
  let point := (length : Int) + d.exponent
  if d.digits = 0 then "0"
  else if 0 ≤ d.exponent then String.ofList (text ++ List.replicate d.exponent.toNat '0')
  else if 0 < point then
    String.ofList (text.take point.toNat ++ ['.'] ++ text.drop point.toNat)
  else String.ofList (['0', '.'] ++ List.replicate (-point).toNat '0' ++ text)

/-- Where a number is written positionally: the place of its decimal point, counted from the first
digit, lies above `least` and is at most `most`. -/
structure Layout where
  least : Int
  most : Int

namespace Layout

/-- Single numbers in records. -/
def single : Layout := ⟨-6, 13⟩

/-- Double numbers in records. -/
def double : Layout := ⟨-5, 16⟩

end Layout

/-- The decimal as a number of a record: always with a point or an exponent. -/
def written (layout : Layout) (d : Decimal) : String :=
  let text := d.digitText
  let point := (text.length : Int) + d.exponent
  if d.digits = 0 then "0.0"
  else if 0 ≤ d.exponent && point ≤ layout.most then d.plain ++ ".0"
  else if layout.least < point && point ≤ layout.most then d.plain
  else
    let fraction := if text.length = 1 then [] else '.' :: text.drop 1
    String.ofList (text.take 1 ++ fraction ++ ['e']) ++ toString (point - 1)

end Decimal

/-- A value of format `f` in plain decimal notation. -/
def Value.plain (f : Format) : Value → String
  | .notNumber => "NaN"
  | .infinite negative => if negative then "-inf" else "inf"
  | .finite negative significand exponent =>
    (if negative then "-" else "") ++ (Decimal.shortest f significand exponent).plain

/-- A value of format `f` as a number of a record; records have no infinities. -/
def Value.written? (f : Format) (layout : Decimal.Layout) : Value → Option String
  | .finite negative significand exponent =>
    let digits := (Decimal.shortest f significand exponent).written layout
    some ((if negative then "-" else "") ++ digits)
  | _ => none

/-- The number in plain decimal notation. -/
def Single.plain (x : Single) : String :=
  x.value.plain .single

/-- The number in plain decimal notation. -/
def Double.plain (x : Double) : String :=
  x.value.plain .double

end SymbolAtlas
