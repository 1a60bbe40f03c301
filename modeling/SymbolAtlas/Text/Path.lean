import SymbolAtlas.Text.Word

/-!
# Paths

A path keeps the spelling it was given, but is compared by its components: repeated and trailing
slashes and inner dots make no difference, a leading dot and double dots do.
-/

namespace SymbolAtlas

/-- One step of a path. -/
inductive Component where
  | root
  | current
  | parent
  | normal (name : String)
  deriving DecidableEq, Repr, Hashable

/-- A path as it is written. -/
structure Path where
  text : String
  deriving DecidableEq, Repr, Inhabited

namespace Path

/-- The characters between slashes. -/
def pieces (cs : List Char) : List (List Char) :=
  (cs.foldl (fun acc c =>
    match acc with
    | piece :: older => if c == '/' then [] :: piece :: older else (c :: piece) :: older
    | [] => [[c]]) [[]]).reverse.map List.reverse

/-- The component that a piece stands for, if any; a dot counts only at the very beginning. -/
def component? (isFirst : Bool) (piece : List Char) : Option Component :=
  if piece == [] then none
  else if piece == ['.'] then if isFirst then some .current else none
  else if piece == ['.', '.'] then some .parent
  else some (.normal (String.ofList piece))

/-- The steps of a path. -/
def components (p : Path) : List Component :=
  match p.text.toList with
  | '/' :: rest => .root :: (pieces rest).filterMap (component? false)
  | cs => (pieces cs).zipIdx.filterMap fun (piece, i) => component? (i == 0) piece

/-- Two spellings of one path. -/
def same (p q : Path) : Bool := p.components == q.components

/-- The path lies at or below `base`. -/
def startsWith (p base : Path) : Bool := base.components.isPrefixOf p.components

/-- The last step, if it is a name. -/
def fileName? (p : Path) : Option String :=
  match p.components.getLast? with
  | some (.normal name) => some name
  | _ => none

/-- The part of the file name after its last dot, unless the dot is its first character. -/
def extension? (p : Path) : Option String := do
  let name := (← p.fileName?).toList
  let tail := (name.reverse.takeWhile (· != '.')).reverse
  if tail.length + 1 < name.length then some (String.ofList tail) else none

/-- The path of `name` below the path. -/
def join (p : Path) (name : String) : Path :=
  if p.text == "" || Str.endsWith p.text "/" then ⟨p.text ++ name⟩ else ⟨p.text ++ "/" ++ name⟩

/-- The file holds C#, by its extension. -/
def isCSharp (p : Path) : Bool := p.extension?.any fun e => Str.lower e == "cs"

end Path

end SymbolAtlas
