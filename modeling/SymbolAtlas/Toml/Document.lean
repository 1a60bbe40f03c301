import SymbolAtlas.Toml.Value

/-!
# Documents of TOML

A document is a list of sections, each a header and the entries below it. Sections whose headers
share their first parts are gathered into nested tables, wherever they stand; a header between
double brackets adds an item to a list of tables, and later headers below it speak about that item.

* `Section.all?` reads the sections of a text.
* `Section.gather?` nests them. It refuses two sections with the same header, and a list that was
  made as a table before.
-/

namespace SymbolAtlas.Toml

/-- A header and the entries below it. -/
structure Section where
  header : List String
  /-- The header stands between double brackets. -/
  isItem : Bool := false
  entries : Entries := []

namespace Section

open Reader in
/-- Takes the header of a section whose first bracket has been taken. -/
def readHeader : Reader Section := do
  let isItem ← accept .leftBracket
  blanks
  let header ← key
  expect .rightBracket
  if isItem then expect .rightBracket
  blanks
  lineEnd
  return { header, isItem }

open Reader in
/-- Takes a key, an equals sign, a value and the end of the line. -/
def readEntry (entries : Entries) : Reader Entries := do
  let path ← key
  expect .equals
  blanks
  let v ← Value.read (2 * (← get).length + 2)
  blanks
  lineEnd
  Entries.add? path v entries

open Reader in
/-- Takes at most `fuel` lines, the entries of which go to the section `current` until the next
header. -/
def readLines : Nat → Section → Reader (List Section)
  | 0, current => return [current]
  | fuel + 1, current => do
    gaps
    match ← get with
    | [] => return [current]
    | .leftBracket :: rest =>
      set rest
      return current :: (← readLines fuel (← readHeader))
    | _ => readLines fuel { current with entries := ← readEntry current.entries }

/-- The sections of a text. The first has no header. -/
def all? (s : String) : Option (List Section) := do
  let tokens ← Token.ofText? s
  let (sections, _) ← (readLines (tokens.length + 1) { header := [] }).run tokens
  some sections

/-- Cuts sections into items: one for each section that starts an item, with what follows it. What
stands before the first such section is an item without a start. -/
def items : List Section → List (Option Section × List Section)
  | [] => []
  | s :: rest =>
    if s.isItem && s.header.isEmpty then
      match items rest with
      | (none, below) :: more => (some s, below) :: more
      | more => (some s, []) :: more
    else
      match items rest with
      | (none, below) :: more => (none, s :: below) :: more
      | more => (none, [s]) :: more

/-- The sections whose header starts with `name`, without that part. -/
def below (name : String) (sections : List Section) : List Section :=
  sections.filterMap fun s =>
    match s.header with
    | first :: rest => if first == name then some { s with header := rest } else none
    | [] => none

/-- The entries of the table that sections describe, `depth` being more than the parts of their
headers. The sections with an empty header hold the entries of the table itself. -/
def gather? : Nat → List Section → Option Entries
  | 0, _ => none
  | depth + 1, sections => do
    let own ←
      match sections.filter (·.header.isEmpty) with
      | [] => some []
      | [s] => if s.isItem then none else some s.entries
      | _ => none
    let names := (sections.filterMap (·.header.head?)).eraseDups
    let nested ← names.mapM fun name => do
      let inside := below name sections
      if inside.head?.any fun s => s.isItem && s.header.isEmpty then
        let tables ← (items inside).mapM fun (start, rest) => do
          if rest.any (·.header.isEmpty) then none
          let more ← gather? depth rest
          some (Value.table false (start.elim [] Section.entries ++ more))
        some (name, Value.list tables)
      else
        some (name, Value.table false (← gather? depth inside))
    some (own ++ nested)

end Section

/-- The entries of a document. -/
def Entries.ofText? (s : String) : Option Entries := do
  let sections ← Section.all? s
  let depth := (sections.map (·.header.length)).foldl max 0
  Section.gather? (depth + 1) sections

end SymbolAtlas.Toml
