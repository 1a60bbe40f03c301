import SymbolAtlas.Json.Basic

/-!
# Reading JSON

Reads a JSON text into a value. Numbers keep the text they are written in.
-/

namespace SymbolAtlas.Json

/-- Spaces, tabs and line ends. -/
def isGap (c : Char) : Bool := c == ' ' || c == '\t' || c == '\n' || c == '\r'

/-- Characters of numbers. -/
def inNumber (c : Char) : Bool :=
  c.isDigit || c == '-' || c == '+' || c == '.' || c == 'e' || c == 'E'

/-- The value of a hexadecimal digit. -/
def hexValue? (c : Char) : Option Nat :=
  (List.range 16).find? fun n => hexDigit n == c.toLower

/-- The number that four hexadecimal digits spell, and what follows them. -/
def unit? : List Char → Option (Nat × List Char)
  | a :: b :: c :: d :: rest => do
    let digits ← [a, b, c, d].mapM hexValue?
    some (digits.foldl (fun n d => 16 * n + d) 0, rest)
  | _ => none

/-- The character of an escape with four digits, after `u`. Two halves of a pair make one
character; a half by itself makes none. -/
def escaped? (cs : List Char) : Option (Char × List Char) := do
  let (high, rest) ← unit? cs
  if 0xD800 ≤ high && high < 0xDC00 then
    match rest with
    | '\\' :: 'u' :: rest => do
      let (low, rest) ← unit? rest
      if 0xDC00 ≤ low && low < 0xE000 then
        some (Char.ofNat (0x10000 + (high - 0xD800) * 0x400 + (low - 0xDC00)), rest)
      else none
    | _ => none
  else if 0xDC00 ≤ high && high < 0xE000 then none
  else some (Char.ofNat high, rest)

/-- Reads a string up to its closing quote, onto the characters `done`, the last one first. -/
def stringTail? : Nat → List Char → List Char → Option (String × List Char)
  | 0, _, _ => none
  | _ + 1, _, [] => none
  | fuel + 1, done, c :: rest =>
    if c == '"' then some (String.ofList done.reverse, rest)
    else if c == '\\' then
      match rest with
      | 'u' :: rest => (escaped? rest).bind fun (c, rest) => stringTail? fuel (c :: done) rest
      | 'b' :: rest => stringTail? fuel ('\x08' :: done) rest
      | 'f' :: rest => stringTail? fuel ('\x0c' :: done) rest
      | 'n' :: rest => stringTail? fuel ('\n' :: done) rest
      | 'r' :: rest => stringTail? fuel ('\r' :: done) rest
      | 't' :: rest => stringTail? fuel ('\t' :: done) rest
      | d :: rest =>
        if d == '"' || d == '\\' || d == '/' then stringTail? fuel (d :: done) rest else none
      | [] => none
    else if c.toNat < 0x20 then none
    else stringTail? fuel (c :: done) rest

/-- Reads a string whose first quote has been read. -/
def readString? (cs : List Char) : Option (String × List Char) := stringTail? (cs.length + 1) [] cs

/-- The characters after a word, if they begin with it. -/
def afterWord? (word : String) (cs : List Char) : Option (List Char) :=
  if word.toList.isPrefixOf cs then some (cs.drop word.length) else none

mutual

/-- Reads a value, at most `fuel` readers deep. -/
def readValue? : Nat → List Char → Option (Json × List Char)
  | 0, _ => none
  | fuel + 1, cs =>
    match cs.dropWhile isGap with
    | '"' :: rest => (readString? rest).map fun (s, rest) => (.string s, rest)
    | '[' :: rest =>
      match rest.dropWhile isGap with
      | ']' :: rest => some (.list [], rest)
      | rest => (readItems? fuel rest).map fun (items, rest) => (.list items, rest)
    | '\x7b' :: rest =>
      match rest.dropWhile isGap with
      | '\x7d' :: rest => some (.record [], rest)
      | rest => (readMembers? fuel rest).map fun (members, rest) => (.record members, rest)
    | 't' :: rest => (afterWord? "rue" rest).map fun rest => (.bool true, rest)
    | 'f' :: rest => (afterWord? "alse" rest).map fun rest => (.bool false, rest)
    | 'n' :: rest => (afterWord? "ull" rest).map fun rest => (.null, rest)
    | cs =>
      let text := cs.takeWhile inNumber
      if text.isEmpty then none else some (.number (String.ofList text), cs.dropWhile inNumber)

/-- Reads the items of a list that is not empty, and its closing bracket. -/
def readItems? : Nat → List Char → Option (List Json × List Char)
  | 0, _ => none
  | fuel + 1, cs => do
    let (item, rest) ← readValue? fuel cs
    match rest.dropWhile isGap with
    | ',' :: rest =>
      let (items, rest) ← readItems? fuel rest
      some (item :: items, rest)
    | ']' :: rest => some ([item], rest)
    | _ => none

/-- Reads the members of a record that is not empty, and its closing brace. -/
def readMembers? : Nat → List Char → Option (List (String × Json) × List Char)
  | 0, _ => none
  | fuel + 1, cs => do
    match cs.dropWhile isGap with
    | '"' :: rest =>
      let (name, rest) ← readString? rest
      match rest.dropWhile isGap with
      | ':' :: rest =>
        let (value, rest) ← readValue? fuel rest
        match rest.dropWhile isGap with
        | ',' :: rest =>
          let (members, rest) ← readMembers? fuel rest
          some ((name, value) :: members, rest)
        | '\x7d' :: rest => some ([(name, value)], rest)
        | _ => none
      | _ => none
    | _ => none

end

/-- The value of a whole text. -/
def ofText? (s : String) : Option Json := do
  let cs := s.toList
  let (value, rest) ← readValue? (2 * cs.length + 2) cs
  if rest.all isGap then some value else none

end SymbolAtlas.Json
