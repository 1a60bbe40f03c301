/-!
# Binary floating point by bit pattern

Numbers in the two standard binary interchange formats, handled in exact arithmetic on their bit
patterns. A finite value is `significand * 2 ^ exponent`; `Format.nearest` rounds a quotient of
naturals to the nearest value of a format, a tie going to the even significand.

* `Single` holds the confidences of dependencies. Its order is the integer order of `Single.rank`.
* `Double` holds the two proportions of the chunking settings.
-/

namespace SymbolAtlas

/-- A binary interchange format, by the width of its two stored fields. -/
structure Format where
  fractionBits : Nat
  exponentBits : Nat
  deriving DecidableEq, Repr

namespace Format

/-- The 32-bit format. -/
def single : Format := ⟨23, 8⟩

/-- The 64-bit format. -/
def double : Format := ⟨52, 11⟩

/-- The exponent of the least significant bit of subnormal values. -/
def leastExponent (f : Format) : Int :=
  2 - Nat.pow 2 (f.exponentBits - 1) - f.fractionBits

/-- The exponent field that marks infinities and values that are no number. -/
def topField (f : Format) : Nat :=
  Nat.pow 2 f.exponentBits - 1

/-- The pattern of positive infinity. -/
def infinity (f : Format) : Nat :=
  f.topField * Nat.pow 2 f.fractionBits

/-- The weight of the sign bit. -/
def signBit (f : Format) : Nat :=
  Nat.pow 2 (f.exponentBits + f.fractionBits)

end Format

/-- What a bit pattern stands for. -/
inductive Value where
  | notNumber
  | infinite (negative : Bool)
  | finite (negative : Bool) (significand : Nat) (exponent : Int)
  deriving DecidableEq, Repr

/-- The quotient of two naturals rounded to the nearest natural, a tie going to the even one. -/
def roundQuotient (num den : Nat) : Nat :=
  let q := num / den
  match compare (2 * (num % den)) den with
  | .lt => q
  | .gt => q + 1
  | .eq => q + q % 2

/-- The quotient `num / den` divided by `2 ^ exponent`, as a quotient of naturals. -/
def scaleQuotient (num den : Nat) (exponent : Int) : Nat × Nat :=
  (num * Nat.pow 2 (-exponent).toNat, den * Nat.pow 2 exponent.toNat)

/-- The greatest `e` with `2 ^ e ≤ num / den`, for positive `num` and `den`. -/
def floorLog (num den : Nat) : Int :=
  let guess : Int := (num.log2 : Int) - den.log2
  let (n, d) := scaleQuotient num den guess
  if d ≤ n then guess else guess - 1

namespace Format

/-- The value of a bit pattern. -/
def decode (f : Format) (bits : Nat) : Value :=
  let fraction := bits % Nat.pow 2 f.fractionBits
  let field := bits / Nat.pow 2 f.fractionBits % Nat.pow 2 f.exponentBits
  let negative := bits / f.signBit % 2 == 1
  if field = f.topField then if fraction = 0 then .infinite negative else .notNumber
  else if field = 0 then .finite negative fraction f.leastExponent
  else .finite negative (Nat.pow 2 f.fractionBits + fraction) (f.leastExponent + (field - 1))

/-- The pattern of the value nearest to `num / den`, or of infinity past the greatest one. -/
def nearest (f : Format) (negative : Bool) (num den : Nat) : Nat :=
  let sign := if negative then f.signBit else 0
  if num = 0 || den = 0 then sign
  else
    let exponent := max f.leastExponent (floorLog num den - f.fractionBits)
    let (n, d) := scaleQuotient num den exponent
    let significand := roundQuotient n d
    let steps := (exponent - f.leastExponent).toNat
    sign + min f.infinity (steps * Nat.pow 2 f.fractionBits + significand)

/-- The pattern of the value nearest to `mantissa * 10 ^ exponent`. Past four hundred places on
either side every exponent rounds alike, so that no greater power has to be computed. -/
def ofDecimal (f : Format) (negative : Bool) (mantissa : Nat) (exponent : Int) : Nat :=
  let exponent := max (-(mantissa.log2 + 401 : Int)) (min 401 exponent)
  f.nearest negative (mantissa * Nat.pow 10 exponent.toNat) (Nat.pow 10 (-exponent).toNat)

/-- The pattern of the value nearest to one of another format. -/
def ofValue (f : Format) : Value → Nat
  | .notNumber => f.infinity + Nat.pow 2 (f.fractionBits - 1)
  | .infinite negative => (if negative then f.signBit else 0) + f.infinity
  | .finite negative significand exponent =>
    f.nearest negative (significand * Nat.pow 2 exponent.toNat) (Nat.pow 2 (-exponent).toNat)

/-- The place of a pattern in the order of values: the two zeros share one, and a pattern that is
no number has none. -/
def rank (f : Format) (bits : Nat) : Option Int :=
  let magnitude := bits % f.signBit
  if f.infinity < magnitude then none
  else some (if bits / f.signBit % 2 == 1 then -(magnitude : Int) else magnitude)

end Format

/-- A number of the 32-bit format. -/
structure Single where
  bits : UInt32
  deriving DecidableEq, Repr, Inhabited

namespace Single

/-- The value of the number. -/
def value (x : Single) : Value :=
  Format.single.decode x.bits.toNat

/-- The place in the order of values. -/
def rank (x : Single) : Option Int :=
  Format.single.rank x.bits.toNat

/-- The single number nearest to the double number nearest to a decimal, which is how a decimal is
read. -/
def ofDecimal (negative : Bool) (mantissa : Nat) (exponent : Int) : Single :=
  let double := Format.double.decode (Format.double.ofDecimal negative mantissa exponent)
  ⟨UInt32.ofNat (Format.single.ofValue double)⟩

/-- The number with `hundredths` hundredths. -/
def ofHundredths (hundredths : Nat) : Single :=
  ofDecimal false hundredths (-2)

def zero : Single := ⟨0⟩

def one : Single := ⟨0x3F800000⟩

/-- The first number is below the second. -/
def isBelow (x y : Single) : Bool :=
  match x.rank, y.rank with
  | some a, some b => decide (a < b)
  | _, _ => false

/-- Whether the number lies between zero and one. -/
def inUnit (x : Single) : Bool :=
  match x.rank, one.rank with
  | some a, some b => decide (0 ≤ a ∧ a ≤ b)
  | _, _ => false

/-- The nearest number between zero and one. -/
def clampUnit (x : Single) : Single :=
  if x.isBelow zero then zero else if one.isBelow x then one else x

/-- The greater of two numbers, the first of equal ones; what is no number gives way. -/
def max (x y : Single) : Single :=
  if x.rank.isNone || x.isBelow y then y else x

end Single

/-- A number of the 64-bit format. -/
structure Double where
  bits : UInt64
  deriving DecidableEq, Repr, Inhabited

namespace Double

/-- The value of the number. -/
def value (x : Double) : Value :=
  Format.double.decode x.bits.toNat

/-- The place in the order of values. -/
def rank (x : Double) : Option Int :=
  Format.double.rank x.bits.toNat

/-- The number nearest to a decimal. -/
def ofDecimal (negative : Bool) (mantissa : Nat) (exponent : Int) : Double :=
  ⟨UInt64.ofNat (Format.double.ofDecimal negative mantissa exponent)⟩

/-- The number nearest to a natural. -/
def ofNat (n : Nat) : Double :=
  ofDecimal false n 0

def one : Double := ofNat 1

/-- The number in the 64-bit format that stands for a value. -/
def ofValue (v : Value) : Double :=
  ⟨UInt64.ofNat (Format.double.ofValue v)⟩

/-- The single number nearest to this one. -/
def toSingle (x : Double) : Single :=
  ⟨UInt32.ofNat (Format.single.ofValue x.value)⟩

/-- The product, rounded. -/
def mul (x y : Double) : Double :=
  ofValue <|
    match x.value, y.value with
    | .finite s a p, .finite t b q => .finite (s != t) (a * b) (p + q)
    | .infinite s, .infinite t => .infinite (s != t)
    | .infinite s, .finite t b _ => if b = 0 then .notNumber else .infinite (s != t)
    | .finite s a _, .infinite t => if a = 0 then .notNumber else .infinite (s != t)
    | _, _ => .notNumber

/-- The first number is below the second. -/
def isBelow (x y : Double) : Bool :=
  match x.rank, y.rank with
  | some a, some b => decide (a < b)
  | _, _ => false

/-- Whether the number lies between zero and one. -/
def inUnit (x : Double) : Bool :=
  match x.rank, one.rank with
  | some a, some b => decide (0 ≤ a ∧ a ≤ b)
  | _, _ => false

/-- The number cut down to a natural of at most 64 bits; what is negative or no number gives
zero. -/
def toNat (x : Double) : Nat :=
  let greatest := 0xFFFFFFFFFFFFFFFF
  match x.value with
  | .notNumber => 0
  | .infinite negative => if negative then 0 else greatest
  | .finite negative significand exponent =>
    if negative then 0
    else min greatest (significand * Nat.pow 2 exponent.toNat / Nat.pow 2 (-exponent).toNat)

end Double

end SymbolAtlas
