import SymbolAtlas.Text.Dotted
import SymbolAtlas.Text.Word

/-!
# Scopes and the context of a place

A `Scope` is the body of a namespace, type or member in a file. The `Context` of a place lists the
scopes open there, outermost first, as `Frame`s, together with the number of plain blocks open
inside the innermost one. From it a `prelude` can be written: one line of source that opens the
same scopes and blocks again, so that text cut out of the middle of a file can be parsed with the
nesting it had there.
-/

namespace SymbolAtlas

/-- The kinds of scope. -/
inductive ScopeKind where
  | nameSpace
  | type
  /-- The body of a method, constructor, property, indexer, event or accessor. -/
  | member
  deriving DecidableEq, Repr

/-- A scope open at some place. -/
structure Frame where
  name : String
  kind : ScopeKind
  /-- The word that declares it: `namespace`, `class`, `record struct` and so on, or for members
  `method`, `property`, `indexer`, `event` or `accessor`. -/
  keyword : String
  fileScoped : Bool := false
  /-- The header stands before the place, the opening brace after it. -/
  pending : Bool := false
  /-- The last line of the scope. -/
  endLine : Nat
  deriving DecidableEq, Repr

namespace Frame

/-- The header that declares the scope again. -/
def header (f : Frame) : String :=
  match f.kind with
  | .nameSpace => "namespace " ++ f.name
  | .type => f.keyword ++ " " ++ f.name
  | .member =>
    match f.keyword with
    | "property" => "object " ++ f.name
    | "indexer" => "object this[object index]"
    | "event" => "event System.Action " ++ f.name
    | "accessor" => f.name
    | _ => "void " ++ f.name ++ "()"

/-- A namespace that has no braces and covers the rest of its file. -/
def isBraceless (f : Frame) : Bool := f.kind == .nameSpace && f.fileScoped

/-- The text that opens the scope again; of a pending scope only its header. -/
def opener (f : Frame) : String :=
  if f.isBraceless then f.header ++ ";"
  else if f.pending then f.header
  else f.header ++ " \x7b"

/-- The number of braces the scope holds open. -/
def braces (f : Frame) : Nat := if f.fileScoped || f.pending then 0 else 1

end Frame

/-- The scopes open at a place, outermost first, and the plain blocks open inside them. -/
structure Context where
  frames : List Frame := []
  openBlocks : Nat := 0
  deriving DecidableEq, Repr

namespace Context

/-- The name of the method that a prelude opens for blocks that belong to no member. -/
def blockMethod : String := "__chunk_body"

/-- The names of the enclosing namespaces. -/
def namespaceNames (c : Context) : List String :=
  (c.frames.filter (·.kind == .nameSpace)).map (·.name)

/-- The dotted name of the enclosing namespaces. -/
def namespaceName? (c : Context) : Option String :=
  if c.namespaceNames.isEmpty then none else some (Dotted.join c.namespaceNames)

/-- The names of the enclosing types. -/
def typeNames (c : Context) : List String :=
  (c.frames.filter (·.kind == .type)).map (·.name)

/-- The dotted name of the innermost type, or of the namespace when no type is open. -/
def qualifiedPath (c : Context) : String :=
  Dotted.join (c.namespaceName?.toList ++ c.typeNames)

/-- Nothing is open. -/
def isEmpty (c : Context) : Bool := c.frames.isEmpty && c.openBlocks == 0

/-- The braces that the scopes hold open. -/
def scopeBraces (c : Context) : Nat := c.frames.foldl (fun n f => n + f.braces) 0

/-- The braces that scopes and blocks hold open. -/
def openedBraces (c : Context) : Nat := c.scopeBraces + c.openBlocks

/-- The texts that open the plain blocks again. Directly inside a type, where no block may stand,
the outermost of them is the body of a method. -/
def blockOpeners (c : Context) : List String :=
  match c.openBlocks with
  | 0 => []
  | blocks + 1 =>
    let first :=
      if (c.frames.getLast?.map Frame.kind) == some .type then "void " ++ blockMethod ++ "() \x7b"
      else "\x7b"
    first :: List.replicate blocks "\x7b"

/-- One line of source that opens every scope and block again; nothing when nothing is open. -/
def prelude (c : Context) : String :=
  if c.isEmpty then "" else " ".intercalate (c.frames.map Frame.opener ++ c.blockOpeners) ++ "\n"

end Context

/-- The body of a namespace, type or member. Lines are one-based. -/
structure Scope where
  name : String
  qualifiedName : String
  kind : ScopeKind
  keyword : String
  fileScoped : Bool
  /-- The line of the declared name. -/
  headerLine : Nat
  startLine : Nat
  endLine : Nat
  /-- The first byte inside: past the opening brace, or past the name of a file-scoped namespace. -/
  openByte : Nat
  /-- The closing brace, or the end of the file. -/
  closeByte : Nat
  /-- The first byte of the declaration. -/
  startByte : Nat
  deriving DecidableEq, Repr

namespace Scope

/-- The scope as a frame. -/
def frame (s : Scope) (pending : Bool) : Frame where
  name := s.name
  kind := s.kind
  keyword := s.keyword
  fileScoped := s.fileScoped
  pending
  endLine := s.endLine

/-- The scope is open at the offset. -/
def isOpenAt (s : Scope) (offset : Nat) : Bool := s.openByte ≤ offset && offset ≤ s.closeByte

/-- The offset lies between the header and the opening of the scope. -/
def isPendingAt (s : Scope) (offset : Nat) : Bool := s.startByte < offset && offset < s.openByte

/-- The frame of the scope at an offset, if it is open or pending there. -/
def frameAt? (s : Scope) (offset : Nat) : Option Frame :=
  if s.isOpenAt offset then some (s.frame false)
  else if s.isPendingAt offset then some (s.frame true)
  else none

/-- Namespaces and types, which other declarations are named after. -/
def isContainer (s : Scope) : Bool := s.kind != .member

end Scope

/-- The scopes of a file, in source order. -/
structure Outline where
  scopes : List Scope := []
  deriving DecidableEq, Repr

namespace Outline

/-- The scopes open or pending at an offset, outermost first. -/
def contextAt (o : Outline) (offset : Nat) : Context where
  frames := o.scopes.filterMap (·.frameAt? offset)

/-- The namespace and type scopes, in source order. -/
def containers (o : Outline) : List Scope := o.scopes.filter Scope.isContainer

/-- The first and last line of a namespace or type, all its declarations taken together. -/
def spanOf? (o : Outline) (qualifiedName : String) : Option (Nat × Nat) :=
  match o.containers.filter (·.qualifiedName == qualifiedName) with
  | [] => none
  | s :: rest =>
    some (rest.foldl (fun (first, last) t => (min first t.startLine, max last t.endLine))
      (s.startLine, s.endLine))

end Outline

end SymbolAtlas
