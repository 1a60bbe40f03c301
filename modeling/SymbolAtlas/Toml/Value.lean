import SymbolAtlas.Numeric.Binary
import SymbolAtlas.Text.Word
import SymbolAtlas.Toml.Token

/-!
# Values of TOML

What may stand to the right of an equals sign. Keys of a table may be repeated here; whoever reads a
table decides whether that is an error.

* `Value.integer?`, `Value.float?` read numbers from bare words.
* `Value.read` reads a value from the front of a list of tokens.
-/

namespace SymbolAtlas.Toml

/-- A value. -/
inductive Value where
  | integer (n : Int)
  | boolean (b : Bool)
  | float (x : Double)
  | text (s : String)
  /-- A date or a time. No setting is one, so it is not looked into. -/
  | date
  | list (items : List Value)
  /-- A table; `dotted` when it came to be through a key with dots, which may add to it again. -/
  | table (dotted : Bool) (entries : List (String × Value))

/-- The entries of a table, in order. -/
abbrev Entries := List (String × Value)

/-! ### Numbers -/

/-- What has been read of a run of digits. -/
structure DigitRun where
  /-- The sign and the digits, last first. -/
  read : List Char := []
  /-- Nothing but a sign has been read. -/
  fresh : Bool := true
  /-- The first digit is a zero. -/
  zeroFirst : Bool := false
  /-- The last character is an underscore. -/
  underscore : Bool := false

/-- Which digits a run has and how it may begin. -/
structure DigitRule where
  radix : Nat := 10
  signed : Bool := false
  zerosFirst : Bool := false

/-- The value of a digit in the radix of the rule. -/
def DigitRule.digit? (rule : DigitRule) (c : Char) : Option Nat :=
  (Token.hexValue? c).filter (· < rule.radix)

/-- Reads digits, with single underscores between them, from the front of a word: the sign and the
digits, and the rest of the word. -/
def DigitRule.run? (rule : DigitRule) : DigitRun → List Char → Option (List Char × List Char)
  | run, [] => stop run []
  | run, c :: rest =>
    if c == '0' && run.fresh then
      rule.run? { run with read := c :: run.read, fresh := false, zeroFirst := true } rest
    else if (rule.digit? c).isSome then
      if !run.fresh && run.zeroFirst && !rule.zerosFirst then none
      else rule.run? { run with read := c :: run.read, fresh := false, underscore := false } rest
    else if c == '_' && run.fresh then none
    else if c == '_' && !run.underscore then rule.run? { run with underscore := true } rest
    else stop run (c :: rest)
where
  /-- The run ends in front of `rest`. -/
  stop (run : DigitRun) (rest : List Char) : Option (List Char × List Char) :=
    if run.fresh || run.underscore then none else some (run.read.reverse, rest)

/-- Reads a sign, if the rule has one, and digits. -/
def DigitRule.read? (rule : DigitRule) : List Char → Option (List Char × List Char)
  | [] => none
  | c :: rest =>
    if rule.signed && (c == '+' || c == '-') then rule.run? { read := [c] } rest
    else rule.run? {} (c :: rest)

/-- Whether a sign and digits are negative, and the digits. -/
def splitSign : List Char → Bool × List Char
  | '-' :: digits => (true, digits)
  | '+' :: digits => (false, digits)
  | digits => (false, digits)

/-- The number that digits spell in a radix. -/
def digitsValue (radix : Nat) (digits : List Char) : Nat :=
  digits.foldl (fun n c => radix * n + (Token.hexValue? c).getD 0) 0

/-- The integer that a sign and digits spell. -/
def signedValue (radix : Nat) (cs : List Char) : Int :=
  let (negative, digits) := splitSign cs
  if negative then -(digitsValue radix digits : Int) else digitsValue radix digits

/-- The integer that a whole word spells, when it fits in 64 bits with sign. -/
def Value.integer? (radix : Nat) (cs : List Char) : Option Value := do
  let (read, rest) ← DigitRule.read? ⟨radix, radix == 10, radix != 10⟩ cs
  if !rest.isEmpty then none
  let n := signedValue radix read
  if -0x8000000000000000 ≤ n && n < 0x8000000000000000 then some (.integer n) else none

/-- The number with these digits before the point, after it, and in the exponent. -/
def Value.float? (whole fraction exponent : List Char) : Option Value :=
  let (negative, digits) := splitSign whole
  let x := Double.ofDecimal negative (digitsValue 10 (digits ++ fraction))
    (signedValue 10 exponent - fraction.length)
  match x.value with
  | .finite .. => some (.float x)
  | _ => none

/-! ### Reading values -/

/-- Readers take what they need from the front of a list of tokens. -/
abbrev Reader := StateT (List Token) Option

namespace Reader

/-- Takes the next token if it is `t`, and tells whether it was. -/
def accept (t : Token) : Reader Bool := fun tokens =>
  match tokens with
  | u :: rest => if u = t then some (true, rest) else some (false, tokens)
  | [] => some (false, [])

/-- Takes the token `t`. -/
def expect (t : Token) : Reader Unit := fun tokens =>
  match tokens with
  | u :: rest => if u = t then some ((), rest) else none
  | [] => none

/-- Takes a bare word. -/
def word : Reader (List Char) := fun tokens =>
  match tokens with
  | .word cs :: rest => some (cs, rest)
  | _ => none

/-- Takes spacing, if there is any. -/
def blanks : Reader Unit := fun tokens =>
  match tokens with
  | .blank _ :: rest => some ((), rest)
  | _ => some ((), tokens)

/-- Takes a comment, if there is one, and then the line end or the end of the text. -/
def lineEnd : Reader Unit := fun tokens =>
  match tokens with
  | .comment :: .newline :: rest | .newline :: rest => some ((), rest)
  | [.comment] | [] => some ((), [])
  | _ => none

/-- Tokens without spacing, line ends and comments in front. -/
def afterGaps : List Token → List Token
  | .blank _ :: rest => afterGaps rest
  | .newline :: rest => afterGaps rest
  | .comment :: .newline :: rest => afterGaps rest
  | [.comment] => []
  | tokens => tokens

/-- Takes spacing, line ends and comments. -/
def gaps : Reader Unit := fun tokens => some ((), afterGaps tokens)

/-- Takes one part of a key. -/
def keyPart : Reader String := fun tokens =>
  match tokens with
  | .word cs :: rest => some (String.ofList cs, rest)
  | .text cs false :: rest => some (String.ofList cs, rest)
  | _ => none

/-- Takes the parts of a key that follow the first, at most `fuel` of them. -/
def keyTail : Nat → Reader (List String)
  | 0 => pure []
  | fuel + 1 => do
    if ← accept .period then
      blanks
      let part ← keyPart
      blanks
      return part :: (← keyTail fuel)
    else
      return []

/-- Takes a key: parts with dots between them. -/
def key : Reader (List String) := do
  let part ← keyPart
  blanks
  return part :: (← keyTail (← get).length)

/-- Takes the rest of a date or time after its first word. A word one space behind it belongs to it,
and so do minutes, seconds, their fraction and an offset once there is a colon. -/
def dateTail (colonRead : Bool) : Reader Value := do
  modify fun tokens =>
    match tokens with
    | .blank true :: .word _ :: rest => rest
    | _ => tokens
  let timed ← if colonRead then pure true else accept .colon
  if timed then
    let _ ← word
    expect .colon
    let _ ← word
    if ← accept .period then
      let _ ← word
    if ← accept .plus then
      let _ ← word
    if ← accept .colon then
      let _ ← word
  return .date

/-- Takes what is left of a number with a point or an exponent whose first word is `cs`. -/
def floatTail (cs : List Char) (fraction : Option (List Char)) : Reader Value := do
  let (whole, rest) ← DigitRule.read? { signed := true } cs
  let (fraction, rest) ←
    match fraction with
    | none => pure ([], rest)
    | some after => if rest.isEmpty then DigitRule.read? { zerosFirst := true } after else failure
  match rest with
  | [] => Value.float? whole fraction []
  | e :: rest =>
    if e != 'e' && e != 'E' then failure
    let (exponent, rest) ←
      if rest.isEmpty then do
        let _ ← accept .plus
        DigitRule.read? { zerosFirst := true } (← word)
      else
        DigitRule.read? { signed := true, zerosFirst := true } rest
    if !rest.isEmpty then failure
    Value.float? whole fraction exponent

/-- The pattern of a quiet value that is no number. -/
def notNumber : Double := Double.ofValue .notNumber

/-- The infinity of a sign. -/
def infinite (negative : Bool) : Double := Double.ofValue (.infinite negative)

/-- Takes what is left of a number whose first word is `cs`. -/
def numberTail (cs : List Char) : Reader Value := do
  match cs with
  | '0' :: 'x' :: digits => Value.integer? 16 digits
  | '0' :: 'o' :: digits => Value.integer? 8 digits
  | '0' :: 'b' :: digits => Value.integer? 2 digits
  | _ =>
    if cs.contains 'e' || cs.contains 'E' then floatTail cs none
    else if ← accept .period then floatTail cs (some (← word))
    else if cs == "inf".toList then return .float (infinite false)
    else if cs == "-inf".toList then return .float (infinite true)
    else if cs == "nan".toList || cs == "-nan".toList then return .float notNumber
    else Value.integer? 10 cs

/-- A word reads like a date: it has the letter of a time, or a hyphen inside that is not the sign
of an exponent. -/
def isDateLike (cs : List Char) : Bool :=
  let has (pattern : String) := (Chars.splitAt? pattern.toList cs).isSome
  cs.contains 'T' || cs.contains 't' || ((cs.drop 1).contains '-' && !has "e-" && !has "E-")

/-- Takes what is left of a value whose first word is `cs`. -/
def wordTail (cs : List Char) : Reader Value := do
  if cs == "true".toList then return .boolean true
  else if cs == "false".toList then return .boolean false
  else
    let starts := cs.head?.any fun c => c == '-' || c.isDigit
    if !starts && cs != "inf".toList && cs != "nan".toList then failure
    else if isDateLike cs then dateTail false
    else if ← accept .colon then dateTail true
    else numberTail cs

end Reader

/-- Adds a value under a key with parts. The tables on the way are made as needed; one that was
not made by a key with dots cannot be added to. -/
def Entries.add? : List String → Value → Entries → Option Entries
  | [], _, entries => some entries
  | [key], v, entries => some (entries ++ [(key, v)])
  | key :: path, v, entries =>
    match entries.findIdx? (·.1 == key) with
    | none => (add? path v []).map fun inner => entries ++ [(key, .table true inner)]
    | some i =>
      match entries[i]? with
      | some (_, .table true inner) =>
        (add? path v inner).map fun inner => entries.set i (key, .table true inner)
      | _ => none

open Reader in
mutual

/-- Takes a value, with at most `fuel` nested readers. -/
def Value.read : Nat → Reader Value
  | 0 => failure
  | fuel + 1 => do
    match ← get with
    | .text cs _ :: rest => set rest; return .text (String.ofList cs)
    | .word cs :: rest => set rest; wordTail cs
    | .plus :: rest => set rest; numberTail (← word)
    | .leftBrace :: rest =>
      set rest
      blanks
      if ← accept .rightBrace then return .table false []
      else return .table false (← Value.readMembers fuel [])
    | .leftBracket :: rest => set rest; return .list (← Value.readItems fuel)
    | _ => failure

/-- Takes the items of a list and its closing bracket. -/
def Value.readItems : Nat → Reader (List Value)
  | 0 => failure
  | fuel + 1 => do
    gaps
    if ← accept .rightBracket then return []
    let item ← Value.read fuel
    gaps
    if ← accept .comma then return item :: (← Value.readItems fuel)
    expect .rightBracket
    return [item]

/-- Takes the members of a table in braces and its closing brace, adding them to `entries`. -/
def Value.readMembers : Nat → Entries → Reader Entries
  | 0, _ => failure
  | fuel + 1, entries => do
    let path ← key
    expect .equals
    blanks
    let v ← Value.read fuel
    let entries ← Entries.add? path v entries
    blanks
    if ← accept .rightBrace then return entries
    expect .comma
    blanks
    Value.readMembers fuel entries

end

end SymbolAtlas.Toml
