import SymbolAtlas.Files.Glob
import SymbolAtlas.Text.Word

/-!
# Ignore rules

The lines of an ignore file. A line is a pattern for paths below the folder of the file; without a
slash inside it applies at any depth, with a slash at its end to folders only, and with an
exclamation mark in front it brings back what another rule ignores. Of the rules that fit a path the
last one counts.
-/

namespace SymbolAtlas

/-- A line of an ignore file. -/
structure IgnoreRule where
  /-- The rule brings back what it fits. -/
  restores : Bool
  /-- The rule is about folders only. -/
  foldersOnly : Bool
  glob : Glob
  deriving DecidableEq, Repr

/-- What rules say about a path. -/
inductive Verdict where
  | ignored
  | restored
  deriving DecidableEq, Repr

namespace IgnoreRule

/-- The pattern of a line made to apply at any depth, unless it is bound to its folder. -/
def atAnyDepth (isBound : Bool) (cs : List Char) : List Char :=
  let doubleStar := ['*', '*', '/']
  if isBound || cs.contains '/' || doubleStar.isPrefixOf cs || cs == ['*', '*'] then cs
  else doubleStar ++ cs

/-- The pattern of a line made to leave out the folder itself, when it speaks of all below it. -/
def belowFolder (cs : List Char) : List Char :=
  if ['/', '*', '*'].isSuffixOf cs then cs ++ ['/', '*'] else cs

/-- The line without a slash at its end, and whether it had one. -/
def splitSlash (cs : List Char) : List Char × Bool :=
  if cs.getLast? == some '/' then
    let cs := cs.dropLast
    (if cs.getLast? == some '\\' then cs.dropLast else cs, true)
  else (cs, false)

/-- Reads the pattern of a rule. -/
def ofPattern? (restores isBound : Bool) (cs : List Char) : Option IgnoreRule :=
  let (cs, foldersOnly) := splitSlash cs
  (Glob.ofChars? (belowFolder (atAnyDepth isBound cs))).map fun glob =>
    { restores, foldersOnly, glob }

/-- Reads a line. Comments, empty lines and what is no pattern give no rule. -/
def ofLine? (line : List Char) : Option IgnoreRule :=
  if line.head? == some '#' then none
  else
    let line := if ['\\', ' '].isSuffixOf line then line else Chars.trimEnd line
    match line with
    | [] => none
    | '\\' :: '!' :: rest => ofPattern? false false ('!' :: rest)
    | '\\' :: '#' :: rest => ofPattern? false false ('#' :: rest)
    | '!' :: '/' :: rest => ofPattern? true true rest
    | '!' :: rest => ofPattern? true false rest
    | '/' :: rest => ofPattern? false true rest
    | _ => ofPattern? false false line

/-- The lines of a file, without their ends. -/
def linesOf (content : Bytes) : List Bytes :=
  let step (b : Byte) : List Bytes → List Bytes
    | line :: later => if b == Byte.newline then [] :: line :: later else (b :: line) :: later
    | [] => [[b]]
  (content.foldr step [[]]).map fun line =>
    if line.getLast? == some Byte.carriageReturn then line.dropLast else line

/-- The text of the lines up to the first that is not well formed. -/
def textLines : List Bytes → List (List Char)
  | [] => []
  | line :: rest =>
    match Utf8.decode? line with
    | some cs => cs :: textLines rest
    | none => []

/-- The rules of an ignore file. A byte order mark at its start does not count. -/
def ofContent (content : Bytes) : List IgnoreRule :=
  let lines :=
    match textLines (linesOf content) with
    | first :: rest => first.dropWhile (fun c : Char => c.toNat == 0xFEFF) :: rest
    | [] => []
  lines.filterMap ofLine?

/-- What the rules say about a path below their folder. -/
def verdict? (rules : List IgnoreRule) (path : Bytes) (isFolder : Bool) : Option Verdict :=
  (rules.reverse.find? fun r => (isFolder || !r.foldersOnly) && r.glob.accepts path).map fun r =>
    if r.restores then .restored else .ignored

end IgnoreRule

end SymbolAtlas
