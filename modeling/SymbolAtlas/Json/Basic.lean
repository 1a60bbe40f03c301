import SymbolAtlas.Numeric.Decimal

/-!
# Records as JSON

The JSON values that results are reported in, and the two ways to write them: `compact`, with no
space at all, and `pretty`, with one member per line and two spaces of indentation. Members keep
their order.
-/

namespace SymbolAtlas

/-- A JSON value. -/
inductive Json where
  | null
  | bool (b : Bool)
  | number (text : String)
  | string (s : String)
  | list (items : List Json)
  | record (members : List (String × Json))

namespace Json

/-- A natural number. -/
def nat (n : Nat) : Json := .number (Nat.repr n)

/-- An integer. -/
def int (n : Int) : Json := .number (toString n)

/-- A single number; what is not finite is null. -/
def single (x : Single) : Json :=
  match x.value.written? .single .single with
  | some text => .number text
  | none => .null

/-- A double number; what is not finite is null. -/
def double (x : Double) : Json :=
  match x.value.written? .double .double with
  | some text => .number text
  | none => .null

/-- The value, or null for none. -/
def option {α : Type} (f : α → Json) : Option α → Json
  | some a => f a
  | none => .null

/-- A list of values of one kind. -/
def array {α : Type} (f : α → Json) (items : List α) : Json :=
  .list (items.map f)

/-- The hexadecimal digit of a number below sixteen. -/
def hexDigit (n : Nat) : Char :=
  if n < 10 then Char.ofNat (0x30 + n) else Char.ofNat (0x57 + n)

/-- One character of a string between quotes. -/
def escape (c : Char) : List Char :=
  match c.toNat with
  | 0x22 => ['\\', '"']
  | 0x5C => ['\\', '\\']
  | 0x08 => ['\\', 'b']
  | 0x09 => ['\\', 't']
  | 0x0A => ['\\', 'n']
  | 0x0C => ['\\', 'f']
  | 0x0D => ['\\', 'r']
  | n => if n < 0x20 then ['\\', 'u', '0', '0', hexDigit (n / 16), hexDigit (n % 16)] else [c]

/-- A string between quotes. -/
def quote (s : String) : String :=
  String.ofList ('"' :: s.toList.flatMap escape ++ ['"'])

mutual

/-- The value with no space. -/
def compact : Json → String
  | .null => "null"
  | .bool b => if b then "true" else "false"
  | .number text => text
  | .string s => quote s
  | .list items => "[" ++ ",".intercalate (compactItems items) ++ "]"
  | .record members => "\x7b" ++ ",".intercalate (compactMembers members) ++ "\x7d"

/-- The items of a list with no space. -/
def compactItems : List Json → List String
  | [] => []
  | item :: rest => compact item :: compactItems rest

/-- The members of a record with no space. -/
def compactMembers : List (String × Json) → List String
  | [] => []
  | (name, value) :: rest => (quote name ++ ":" ++ compact value) :: compactMembers rest

end

/-- Written items between brackets, each on a line indented once more than the brackets. -/
def block (depth : Nat) (opening closing : String) (items : List String) : String :=
  let indent (n : Nat) := String.ofList ('\n' :: List.replicate (2 * n) ' ')
  match items with
  | [] => opening ++ closing
  | _ =>
    opening ++ ",".intercalate (items.map (indent (depth + 1) ++ ·)) ++ indent depth ++ closing

mutual

/-- The value with one member per line, `depth` levels deep. -/
def prettyAt (depth : Nat) : Json → String
  | .list items => block depth "[" "]" (prettyItems depth items)
  | .record members => block depth "\x7b" "\x7d" (prettyMembers depth members)
  | .null => "null"
  | .bool b => if b then "true" else "false"
  | .number text => text
  | .string s => quote s

/-- The items of a list that is `depth` levels deep. -/
def prettyItems (depth : Nat) : List Json → List String
  | [] => []
  | item :: rest => prettyAt (depth + 1) item :: prettyItems depth rest

/-- The members of a record that is `depth` levels deep. -/
def prettyMembers (depth : Nat) : List (String × Json) → List String
  | [] => []
  | (name, value) :: rest =>
    (quote name ++ ": " ++ prettyAt (depth + 1) value) :: prettyMembers depth rest

end

/-- The value with one member per line. -/
def pretty (j : Json) : String :=
  prettyAt 0 j

end Json

end SymbolAtlas
