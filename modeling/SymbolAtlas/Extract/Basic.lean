import SymbolAtlas.Extract.Walk
import SymbolAtlas.Mask.Basic
import SymbolAtlas.Tree.Cursor

/-!
# Extraction

Everything that one syntax tree tells: the records of the walk, the calls found only in the text,
the symbols that are exported, and the errors the grammar met.
-/

namespace SymbolAtlas

/-- The issue that a node stands for by itself. -/
def Node.ownIssue? (source : Bytes) (n : Node) : Option Issue :=
  let line := source.rowAt n.start + 1
  let column := source.columnAt n.start + 1
  if n.name == "ERROR" then
    some (.error ("Syntax error near `" ++ Str.clip (n.text source) 40 ++ "`") line column)
  else if n.label.missing then some (.error ("Missing `" ++ n.name ++ "`") line column)
  else none

/-- The syntax errors of a tree: one for each error node and each missing token. Nothing is looked
for below a node that holds no error. -/
def Node.syntaxIssues (source : Bytes) (root : Node) : List Issue :=
  if root.hasError then (Cursor.atRoot root).walk Node.hasError (Node.ownIssue? source) [] else []

namespace Walk

/-- The names of all methods and local functions below a node. -/
def methodNames (source : Bytes) (root : Node) : List String :=
  ((Site.preorder root).filter fun s =>
    s.node.kind == .methodDeclaration || s.node.kind == .localFunction).filterMap
      (·.node.fieldText? source "name")

/-- What a walk over a tree is told. -/
def envOf (source : Bytes) (options : ExtractOptions) (root : Node) : WalkEnv where
  source
  options
  resolver := .ofTree source options.binding root
  methods := methodNames source root

/-- The walk over a whole tree. -/
def ofTree (source : Bytes) (options : ExtractOptions) (root : Node) : Walk :=
  visit (envOf source options root) [] {} root

end Walk

/-- The export of an exported symbol. -/
def Symbol.toExport (s : Symbol) : Export :=
  { name := s.name, qualifiedName := s.qualifiedName, kind := s.kind, line := s.startLine }

/-- Everything found in a text with the given tree. Lines are those of the text. -/
def Findings.ofTree (source : Bytes) (options : ExtractOptions) (root : Node) : Findings :=
  let walk := Walk.ofTree source options root
  let symbols := walk.symbols.toList
  let dependencies := walk.dependencies.toList
  let members := walk.members.toList
  let textual :=
    if options.textPass && !members.isEmpty then
      TextCall.unreported (Mask.ofSource source).shown members dependencies options.binding.textual
    else []
  { symbols
    dependencies := dependencies ++ textual
    imports := walk.imports.toList
    exports := (symbols.filter (·.isExported)).map Symbol.toExport
    issues := if options.chunkMode then [] else root.syntaxIssues source
    tally := { chunksProcessed := 1 } }

end SymbolAtlas
