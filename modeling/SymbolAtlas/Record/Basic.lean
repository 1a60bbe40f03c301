import SymbolAtlas.Numeric.Binary

/-!
# What is found in a file

The records that extraction yields: symbols, dependencies between them, imports, exports and
issues. `Findings` holds all of them for one file or one chunk of it. Lines are one-based.
-/

namespace SymbolAtlas

/-- The kinds of declared symbol. -/
inductive SymbolKind where
  | nameSpace
  | type
  | interface
  | method
  | property
  | field
  | constant
  | event
  | typeAlias
  | localVariable
  deriving DecidableEq, Repr, Hashable

namespace SymbolKind

/-- All kinds, in their order in snapshots. -/
def all : List SymbolKind :=
  [.nameSpace, .type, .interface, .method, .property, .field, .constant, .event, .typeAlias,
    .localVariable]

/-- The word for a kind in records. -/
def word : SymbolKind → String
  | .nameSpace => "namespace"
  | .type => "type"
  | .interface => "interface"
  | .method => "method"
  | .property => "property"
  | .field => "field"
  | .constant => "constant"
  | .event => "event"
  | .typeAlias => "type_alias"
  | .localVariable => "variable"

/-- Kinds that other symbols nest inside. -/
def isContainer : SymbolKind → Bool
  | .nameSpace | .type | .interface => true
  | _ => false

end SymbolKind

/-- Who may use a symbol. -/
inductive Visibility where
  | everyone
  | heirs
  | owner
  deriving DecidableEq, Repr

namespace Visibility

/-- All levels, in their order in snapshots. -/
def all : List Visibility := [.everyone, .heirs, .owner]

/-- The word for a level in records. -/
def word : Visibility → String
  | .everyone => "public"
  | .heirs => "protected"
  | .owner => "private"

/-- How wide a level is. -/
def rank : Visibility → Nat
  | .everyone => 2
  | .heirs => 1
  | .owner => 0

/-- The wider of two levels. -/
def wider (a b : Visibility) : Visibility := if a.rank < b.rank then b else a

/-- The level that modifiers declare. What is internal counts as public. -/
def ofModifiers (modifiers : List String) (default : Visibility) : Visibility :=
  let has (word : String) := modifiers.contains word
  if has "public" || has "internal" then
    if has "protected" || has "private" then .heirs else .everyone
  else if has "protected" then .heirs
  else if has "private" then .owner
  else default

end Visibility

/-- A declaration. -/
structure Symbol where
  name : String
  qualifiedName : String
  kind : SymbolKind
  startLine : Nat
  endLine : Nat
  isExported : Bool
  visibility : Visibility
  signature : Option String
  deriving DecidableEq, Repr

namespace Symbol

/-- The number of lines a symbol takes. -/
def lineSpan (s : Symbol) : Nat := s.endLine - s.startLine + 1

/-- The symbol has a signature that is not empty. -/
def hasSignature (s : Symbol) : Bool := s.signature.any (· != "")

end Symbol

/-- The kinds of dependency. -/
inductive DependencyKind where
  | calls
  | inherits
  | implements
  | references
  deriving DecidableEq, Repr, Hashable

namespace DependencyKind

/-- All kinds, in their order in snapshots. -/
def all : List DependencyKind := [.calls, .inherits, .implements, .references]

/-- The word for a kind in records. -/
def word : DependencyKind → String
  | .calls => "calls"
  | .inherits => "inherits"
  | .implements => "implements"
  | .references => "references"

end DependencyKind

/-- A directed dependency between two symbols, given by their names. -/
structure Dependency where
  fromSymbol : String
  toSymbol : String
  kind : DependencyKind
  line : Nat
  /-- How certain it is, between zero and one. -/
  confidence : Single
  callingObject : Option String := none
  receiverType : Option String := none
  qualifiedContext : Option String := none
  parameterContext : Option String := none
  deriving DecidableEq, Repr

/-- A dependency with its confidence brought between zero and one, and nothing further known. -/
def Dependency.make (fromSymbol toSymbol : String) (kind : DependencyKind) (line : Nat)
    (confidence : Single) : Dependency :=
  { fromSymbol, toSymbol, kind, line, confidence := confidence.clampUnit }

/-- The kinds of import. -/
inductive ImportKind where
  | nameSpace
  | staticMembers
  | renaming
  deriving DecidableEq, Repr

namespace ImportKind

def all : List ImportKind := [.nameSpace, .staticMembers, .renaming]

/-- The word for a kind in records. -/
def word : ImportKind → String
  | .nameSpace => "namespace"
  | .staticMembers => "static"
  | .renaming => "alias"

end ImportKind

/-- A `using` directive. -/
structure Import where
  source : String
  aliasName : Option String
  kind : ImportKind
  isGlobal : Bool
  line : Nat
  deriving DecidableEq, Repr

/-- A symbol offered to other files. -/
structure Export where
  name : String
  qualifiedName : String
  kind : SymbolKind
  line : Nat
  deriving DecidableEq, Repr

/-- How serious an issue is. -/
inductive Severity where
  | error
  | warning
  deriving DecidableEq, Repr

namespace Severity

def all : List Severity := [.error, .warning]

/-- The word for a severity in records. -/
def word : Severity → String
  | .error => "error"
  | .warning => "warning"

end Severity

/-- A problem seen in a file, which does not keep the rest of it from being read. -/
structure Issue where
  message : String
  line : Nat
  column : Nat
  severity : Severity
  deriving DecidableEq, Repr

namespace Issue

def error (message : String) (line column : Nat) : Issue :=
  { message, line, column, severity := .error }

def warning (message : String) (line : Nat) : Issue :=
  { message, line, column := 1, severity := .warning }

end Issue

/-- An account of the chunks a result was put together from. -/
structure Tally where
  chunksProcessed : Nat := 0
  duplicatesRemoved : Nat := 0
  crossChunkReferences : Nat := 0
  deriving DecidableEq, Repr

/-- Everything found in one file. -/
structure Findings where
  symbols : List Symbol := []
  dependencies : List Dependency := []
  imports : List Import := []
  exports : List Export := []
  issues : List Issue := []
  tally : Tally := {}
  deriving DecidableEq, Repr

namespace Findings

/-- The findings of a file that could not be read at all. -/
def failed (message : String) (line : Nat) : Findings :=
  { issues := [.error message line 1], tally := { chunksProcessed := 1 } }

/-- Some issue is an error. -/
def hasErrors (f : Findings) : Bool := f.issues.any (·.severity == .error)

/-- The first symbol with a qualified name. -/
def find? (f : Findings) (qualifiedName : String) : Option Symbol :=
  f.symbols.find? (·.qualifiedName == qualifiedName)

/-- The findings with every line moved down. -/
def shift (f : Findings) (lines : Nat) : Findings :=
  { f with
    symbols := f.symbols.map fun s =>
      { s with startLine := s.startLine + lines, endLine := s.endLine + lines }
    dependencies := f.dependencies.map fun d => { d with line := d.line + lines }
    imports := f.imports.map fun i => { i with line := i.line + lines }
    exports := f.exports.map fun e => { e with line := e.line + lines }
    issues := f.issues.map fun i => { i with line := i.line + lines } }

/-- The findings without private symbols. -/
def withoutPrivate (f : Findings) : Findings :=
  { f with symbols := f.symbols.filter (·.visibility != .owner) }

end Findings

end SymbolAtlas
