import SymbolAtlas.Record.Basic
import SymbolAtlas.Text.Utf8
import SymbolAtlas.Text.Word

/-!
# Calls found in the text

A second look for calls, in the masked text of member bodies, for the places where the grammar
under-reports them. A call is

    [ name  spacing ]  dot  spacing  name  spacing  [ angle brackets ]  spacing  parenthesis

where the dot may follow a question mark, and the angle brackets hold neither angle brackets nor
parentheses. What the tree has already reported on the same line is left out.
-/

namespace SymbolAtlas

/-- The body of a member. -/
structure MemberSpan where
  qualifiedName : String
  start : Nat
  stop : Nat
  startLine : Nat
  deriving DecidableEq, Repr

/-- A call recognised in the text of a body. -/
structure TextCall where
  receiver : Option String
  name : String
  /-- Line ends in the body before the call. -/
  row : Nat
  deriving DecidableEq, Repr

namespace TextCall

/-- The name that the text begins with, and what follows it. -/
def name? (cs : List Char) : Option (String × List Char) :=
  match cs with
  | c :: _ =>
    if CharClass.isNameStart c then
      some (String.ofList (cs.takeWhile CharClass.isWord), cs.dropWhile CharClass.isWord)
    else none
  | [] => none

/-- What follows a dot, or a question mark and a dot. -/
def dot? : List Char → Option (List Char)
  | '.' :: rest => some rest
  | '?' :: '.' :: rest => some rest
  | _ => none

/-- What follows angle brackets, or the text itself when it begins with none. -/
def skipAngles (cs : List Char) : List Char :=
  match cs with
  | '<' :: inside =>
    let rest := inside.dropWhile fun c => !(['<', '>', '(', ')'].contains c)
    match rest with
    | '>' :: after => after
    | _ => cs
  | _ => cs

/-- The call that the text begins with, and what follows it. -/
def at? (row : Nat) (cs : List Char) : Option (TextCall × List Char) := do
  let (receiver, rest) :=
    match name? cs with
    | some (name, rest) => (some name, Chars.trimStart rest)
    | none => (none, cs)
  let rest ← dot? rest
  let (name, rest) ← name? (Chars.trimStart rest)
  match Chars.trimStart (skipAngles (Chars.trimStart rest)) with
  | '(' :: rest => some ({ receiver, name, row }, rest)
  | _ => none

/-- Collects calls onto `found`; `skip` characters still belong to the last of them. -/
def collect (found : List TextCall) (row skip : Nat) : List Char → List TextCall
  | [] => found.reverse
  | c :: rest =>
    let next := if c == '\n' then row + 1 else row
    match skip with
    | skip + 1 => collect found next skip rest
    | 0 =>
      match at? row (c :: rest) with
      | some (call, after) => collect (call :: found) next (rest.length - after.length) rest
      | none => collect found next 0 rest

/-- The calls in the masked text of a body. -/
def inBody (masked : Bytes) (m : MemberSpan) : List TextCall :=
  if m.start ≤ m.stop && masked.isBoundary m.start && masked.isBoundary m.stop then
    collect [] 0 0 ((Utf8.decode? (masked.slice m.start m.stop)).getD [])
  else []

/-- A dependency reports a call of `name` on a line of a member. -/
def isReported (member : String) (line : Nat) (name : String) (d : Dependency) : Bool :=
  d.kind == .calls && d.line == line && Str.startsWith d.fromSymbol member
    && (d.toSymbol == name || Str.endsWith d.toSymbol ("." ++ name))

/-- Adds one call to those in `found`, unless it is reported already. -/
def add (existing : List Dependency) (confidence : Single) (m : MemberSpan)
    (found : List Dependency) (call : TextCall) : List Dependency :=
  let line := m.startLine + call.row
  if (existing ++ found).any (isReported m.qualifiedName line call.name) then found
  else
    found ++ [{ Dependency.make m.qualifiedName call.name .calls line confidence with
      callingObject := call.receiver }]

/-- The calls in member bodies that `existing` does not report. -/
def unreported (masked : Bytes) (members : List MemberSpan) (existing : List Dependency)
    (confidence : Single) : List Dependency :=
  members.foldl (fun found m => (inBody masked m).foldl (add existing confidence m) found) []

end TextCall

end SymbolAtlas
