/-!
# Tokens of TOML

A settings file is cut into tokens before its lines are read. Spacing is a token of its own, because
the parts of a number and of a date may not be spaced apart. A line end is a line feed, with or
without a carriage return before it.

* `Token.ofText?` gives all tokens of a text, or none where a character fits nowhere.
-/

namespace SymbolAtlas.Toml

/-- The pieces of a settings file. -/
inductive Token where
  /-- Spaces and tabs; `single` for just one space. -/
  | blank (single : Bool)
  | newline
  | comment
  | equals
  | period
  | comma
  | colon
  | plus
  | leftBrace
  | rightBrace
  | leftBracket
  | rightBracket
  /-- A bare key, a number, a date or a truth value. -/
  | word (chars : List Char)
  /-- A string, and whether it was written between triple quotes. -/
  | text (chars : List Char) (triple : Bool)
  deriving DecidableEq, Repr

namespace Token

/-- Characters of bare words. -/
def isBare (c : Char) : Bool := c.isAlphanum || c == '-' || c == '_'

/-- Characters that may stand in a comment. -/
def inComment (c : Char) : Bool := c == '\t' || 0x20 ≤ c.toNat

/-- Characters that may stand in a string as they are. -/
def inString (c : Char) : Bool := c == '\t' || (0x20 ≤ c.toNat && c.toNat != 0x7F)

/-- Spaces and tabs. -/
def isBlank (c : Char) : Bool := c == ' ' || c == '\t'

/-- The text with every line end written as a line feed. -/
def foldLineEnds : List Char → List Char
  | '\r' :: '\n' :: rest => '\n' :: foldLineEnds rest
  | c :: rest => c :: foldLineEnds rest
  | [] => []

/-- The value of a hexadecimal digit. -/
def hexValue? (c : Char) : Option Nat :=
  let n := c.toNat
  if 0x30 ≤ n && n ≤ 0x39 then some (n - 0x30)
  else if 0x41 ≤ n && n ≤ 0x46 then some (n - 0x37)
  else if 0x61 ≤ n && n ≤ 0x66 then some (n - 0x57)
  else none

/-- The character with the code that `count` hexadecimal digits spell, and what follows them. -/
def hexChar? (count : Nat) (cs : List Char) : Option (Char × List Char) := do
  if cs.length < count then none
  let digits ← (cs.take count).mapM hexValue?
  let code := digits.foldl (fun n d => 16 * n + d) 0
  if h : code.isValidChar then some (Char.ofNatAux code h, cs.drop count) else none

/-- What follows a backslash at a line end: spacing up to the line end is required when the line
end does not follow at once, and all spacing after it is dropped. -/
def skipLineEnd? (cs : List Char) : Option (List Char) :=
  match cs.dropWhile isBlank with
  | '\n' :: rest => some (rest.dropWhile fun c => isBlank c || c == '\n')
  | [] => some []
  | _ => none

/-- Reads what follows a backslash: the characters it stands for and the rest. -/
def unescape? (triple : Bool) : List Char → Option (List Char × List Char)
  | '"' :: rest => some (['"'], rest)
  | '\\' :: rest => some (['\\'], rest)
  | 'b' :: rest => some (['\x08'], rest)
  | 'f' :: rest => some (['\x0c'], rest)
  | 'n' :: rest => some (['\n'], rest)
  | 'r' :: rest => some (['\r'], rest)
  | 't' :: rest => some (['\t'], rest)
  | 'u' :: rest => (hexChar? 4 rest).map fun (c, rest) => ([c], rest)
  | 'U' :: rest => (hexChar? 8 rest).map fun (c, rest) => ([c], rest)
  | c :: rest =>
    if triple && (isBlank c || c == '\n') then (skipLineEnd? (c :: rest)).map fun rest => ([], rest)
    else none
  | [] => none

/-- Reads a string up to its closing quote. `quote` is the quote, escapes are read between double
quotes only, and `read` holds the characters so far, last first. Up to two quotes directly before
the closing three belong to the string. -/
def closing? (quote : Char) (triple : Bool) : Nat → List Char → List Char →
    Option (List Char × List Char)
  | 0, _, _ => none
  | _ + 1, _, [] => none
  | fuel + 1, read, c :: rest =>
    if c == quote then
      if !triple then some (read.reverse, rest)
      else
        let run := ((c :: rest).takeWhile (· == quote)).length
        if run < 3 then closing? quote triple fuel (c :: read) rest
        else
          let extra := min 2 (run - 3)
          some (read.reverse ++ List.replicate extra quote, (c :: rest).drop (3 + extra))
    else if c == '\n' then
      if triple then closing? quote triple fuel (c :: read) rest else none
    else if c == '\\' && quote == '"' then
      match unescape? triple rest with
      | some (chars, rest) => closing? quote triple fuel (chars.reverse ++ read) rest
      | none => none
    else if inString c then closing? quote triple fuel (c :: read) rest
    else none

/-- Reads a string whose first quote has been read. A line end directly after three quotes is
dropped. -/
def string? (quote : Char) (cs : List Char) : Option (Token × List Char) :=
  let finish (triple : Bool) (cs : List Char) :=
    (closing? quote triple (cs.length + 1) [] cs).map fun (chars, rest) => (text chars triple, rest)
  match cs with
  | a :: b :: rest =>
    if a == quote && b == quote then
      finish true (match rest with | '\n' :: more => more | _ => rest)
    else if a == quote then some (text [] false, b :: rest)
    else finish false cs
  | [a] => if a == quote then some (text [] false, []) else none
  | [] => none

/-- The token that starts with the character `c`, and the rest. -/
def first? (c : Char) (rest : List Char) : Option (Token × List Char) :=
  if c == '\n' then some (newline, rest)
  else if isBlank c then
    some (blank (c == ' ' && !(rest.head?.any isBlank)), rest.dropWhile isBlank)
  else if c == '#' then some (comment, rest.dropWhile inComment)
  else if c == '=' then some (equals, rest)
  else if c == '.' then some (period, rest)
  else if c == ',' then some (comma, rest)
  else if c == ':' then some (colon, rest)
  else if c == '+' then some (plus, rest)
  else if c.toNat == 0x7B then some (leftBrace, rest)
  else if c.toNat == 0x7D then some (rightBrace, rest)
  else if c == '[' then some (leftBracket, rest)
  else if c == ']' then some (rightBracket, rest)
  else if c == '"' || c.toNat == 0x27 then string? c rest
  else if isBare c then some (word (c :: rest.takeWhile isBare), rest.dropWhile isBare)
  else none

/-- The tokens of a text of at most `fuel` characters. -/
def all? : Nat → List Char → Option (List Token)
  | _, [] => some []
  | 0, _ => none
  | fuel + 1, c :: rest => do
    let (token, rest) ← first? c rest
    some (token :: (← all? fuel rest))

/-- The tokens of a text. A byte order mark at its start is dropped. -/
def ofText? (s : String) : Option (List Token) :=
  let cs := foldLineEnds s.toList
  let cs := match cs with | c :: rest => if c.toNat == 0xFEFF then rest else cs | [] => []
  all? cs.length cs

end Token

end SymbolAtlas.Toml
