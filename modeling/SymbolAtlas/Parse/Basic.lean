import SymbolAtlas.Boundary.Plan
import SymbolAtlas.Chunk.Split
import SymbolAtlas.Extract.Basic
import SymbolAtlas.Failure
import SymbolAtlas.Record.Merge
import SymbolAtlas.Scope.OfMask
import SymbolAtlas.Scope.OfTree

/-!
# Parsing a file

Puts the parts together. A file that is small enough is extracted whole. A larger one is cut into
chunks, each chunk is extracted behind its prelude, and the findings are moved to file lines, rid of
what overlaps repeat, and merged. The spans of namespaces and types then come from the outline of
the whole file, and those that no chunk reported are put back.

The syntax trees come from a grammar outside this library: one for the whole file and, when it is
cut, one for the wrapped text of each chunk. Each text gets a parser of its own, which may be
missing or give up. Without a parser the whole file is refused; without a tree it is still cut by
its mask. A chunk that fails only leaves an issue.
-/

namespace SymbolAtlas

/-- What the grammar makes of a text: there is no parser to be had, the parser yields no tree, or
there is a tree. -/
inductive Parsed where
  | noParser (reason : String)
  | noTree
  | tree (root : Node)

instance : Coe Node Parsed := ⟨.tree⟩

/-- The tree of a file, if it has one. Without a parser the file is refused. -/
def Parsed.tree? (path : Path) : Parsed → Except Failure (Option Node)
  | .noParser reason => .error (.noParser path reason)
  | .noTree => .ok none
  | .tree root => .ok (some root)

/-- What the grammar makes of a file: of the whole of it, and of the text of each of its chunks. -/
structure Forest where
  whole : Parsed
  chunks : List Parsed := []

/-- What the grammar makes of the chunk at a position. -/
def Forest.ofChunk (f : Forest) (index : Nat) : Parsed := (f.chunks[index]?).getD .noTree

/-- Where a file is cut, and into which chunks. -/
structure ChunkPlan where
  plan : Plan
  chunks : List Chunk
  deriving DecidableEq, Repr

namespace Parse

/-- Refuses files that hold no C# or are too large. -/
def check (settings : Settings) (path : Path) (source : Bytes) : Except Failure Unit :=
  if !path.isCSharp then .error (.unsupportedLanguage path)
  else if settings.extraction.maxFileSize < source.length then
    .error (.fileTooLarge path source.length settings.extraction.maxFileSize)
  else .ok ()

/-- The outline of a file, told from its mask if there is no tree. -/
def outlineOf (source : Bytes) (mask : Mask) : Option Node → Outline
  | some root => .ofTree root source
  | none => .ofMask mask

/-- The chunks that a plan cuts a file into. -/
def chunksOf (settings : Settings) (source : Bytes) (mask : Mask) (tree : Option Node) :
    Plan → List Chunk
  | .split boundaries _ =>
    Chunk.split settings.chunking source boundaries (outlineOf source mask tree) mask
  | .unchunked _ => []

/-- How a file would be cut. No parser is asked for where nothing is ever cut. -/
def plan (settings : Settings) (path : Path) (source : Bytes) (parsed : Parsed) :
    Except Failure ChunkPlan := do
  check settings path source
  if settings.chunking.enabled then
    let tree ← parsed.tree? path
    let mask := Mask.ofSource source
    let plan := (Cutter.ofMask settings.chunking mask).plan tree
    return { plan, chunks := chunksOf settings source mask tree plan }
  else return { plan := .unchunked "chunking disabled", chunks := [] }

/-- What extraction is told about a text behind a prelude. -/
def options (settings : Settings) (preludeSize : Nat) (chunkMode : Bool) : ExtractOptions where
  preludeSize
  chunkMode
  binding := settings.binding
  textPass := settings.extraction.textPass

/-- The findings of a file that is not cut. -/
def whole (settings : Settings) (path : Path) (source : Bytes) : Option Node → Findings
  | some root => .merge [.ofTree source (options settings 0 false) root]
  | none => .failed (Failure.noTree path).message 1

/-- The findings of a chunk without what the chunk before has found already. Symbols that reach past
the overlap stay. -/
def dropEchoes (chunk : Chunk) (f : Findings) : Findings :=
  if chunk.coreStartLine ≤ chunk.startLine then f
  else
    let symbols := f.symbols.filter fun s => !chunk.inOverlap s.endLine
    { f with
      symbols
      dependencies := f.dependencies.filter fun d => !chunk.inOverlap d.line
      exports := f.exports.filter fun e => symbols.any (·.qualifiedName == e.qualifiedName) }

/-- The findings of a chunk in the lines of the file. -/
def place (chunk : Chunk) (lineOffset : Nat) (f : Findings) : Findings :=
  if f.hasErrors then
    let reason := (f.issues.head?.map (·.message)).getD "no syntax tree"
    .failed s!"chunk {chunk.index} (lines {chunk.startLine}-{chunk.endLine}) failed: {reason}"
      chunk.startLine
  else dropEchoes chunk (f.shift lineOffset)

/-- The findings of a text that is parsed on its own. -/
def ofParsed (path : Path) (text : Bytes) (options : ExtractOptions) : Parsed → Findings
  | .noParser reason => .failed (Failure.noParser path reason).message 1
  | .noTree => .failed ("failed to parse " ++ path.text ++ " as csharp") 1
  | .tree root => .ofTree text options root

/-- The findings of one chunk. -/
def ofChunk (settings : Settings) (path : Path) (chunk : Chunk) (parsed : Parsed) : Findings :=
  let wrapped := chunk.wrapped
  place chunk wrapped.lineOffset
    (ofParsed path wrapped.text (options settings wrapped.preludeSize true) parsed)

/-- Gives namespaces and types the lines they have in the outline of the file. -/
def correctSpan (outline : Outline) (s : Symbol) : Symbol :=
  if s.kind.isContainer then
    match outline.spanOf? s.qualifiedName with
    | some (startLine, endLine) => { s with startLine, endLine }
    | none => s
  else s

/-- The name of `scope` is that of `outer` and something nested in it. -/
def isNamedInside (scope outer : Scope) : Bool :=
  Str.startsWith scope.qualifiedName (outer.qualifiedName ++ ".")

/-- A symbol for a namespace or type known only from the outline. -/
def restoredSymbol (outline : Outline) (scope : Scope) : Symbol :=
  let (startLine, endLine) :=
    (outline.spanOf? scope.qualifiedName).getD (scope.startLine, scope.endLine)
  let nested := outline.containers.any fun outer => outer.kind == .type && isNamedInside scope outer
  let (kind, visibility) : SymbolKind × Visibility :=
    if scope.kind == .nameSpace then (.nameSpace, .everyone)
    else if scope.keyword == "interface" then (.interface, .everyone)
    else (.type, if nested then .owner else .everyone)
  { name := scope.name
    qualifiedName := scope.qualifiedName
    kind
    startLine
    endLine
    isExported := false
    visibility
    signature := some (scope.keyword ++ " " ++ scope.name) }

/-- The first of the scopes under each name that is not yet known. -/
def missingScopes : List String → List Scope → List Scope
  | _, [] => []
  | known, s :: rest =>
    if known.contains s.qualifiedName then missingScopes known rest
    else s :: missingScopes (s.qualifiedName :: known) rest

/-- Adds the namespaces and types of the outline that no chunk reported. -/
def restoreContainers (outline : Outline) (f : Findings) : Findings :=
  let known := (f.symbols.filter (·.kind.isContainer)).map (·.qualifiedName)
  let missing := missingScopes known outline.containers
  { f with symbols := f.symbols ++ missing.map (restoredSymbol outline) }

/-- What the tree of a whole file adds to the findings of its chunks. -/
def syntaxPart (source : Bytes) (root : Node) : Findings :=
  { issues := root.syntaxIssues source }

/-- The findings of a file that is cut. -/
def chunked (settings : Settings) (path : Path) (source : Bytes) (tree : Option Node)
    (outline : Outline) (forest : Forest) (chunks : List Chunk) : Findings :=
  let parts := chunks.map fun c => ofChunk settings path c (forest.ofChunk c.index)
  let merged := Findings.merge (parts ++ tree.toList.map (syntaxPart source))
  restoreContainers outline { merged with symbols := merged.symbols.map (correctSpan outline) }

/-- Fewest lines with something on them from which a file should declare something. -/
def expectedLines : Nat := 20

/-- Names of the framework that are hardly ever used without an import. -/
def frameworkMarks : List String := ["Console.", "Dictionary<", "List<", "Task<"]

/-- The lines of a text, without their ends. -/
def linesOf (source : Bytes) : List Bytes :=
  source.lineStarts.map fun start => (source.drop start).takeWhile (· != Byte.newline)

/-- The number of lines with something on them. -/
def visibleLines (source : Bytes) : Nat :=
  (linesOf source).countP fun line => Str.trim line.toText != ""

/-- The byte offset at which `pattern` first occurs in `s`. -/
def offsetOf? (pattern : Bytes) (s : Bytes) : Option Nat := go 0 s
where
  /-- The offset at which `pattern` first occurs from `offset` on. -/
  go (offset : Nat) : Bytes → Option Nat
    | [] => if pattern.isEmpty then some offset else none
    | b :: rest => if pattern.isPrefixOf (b :: rest) then some offset else go (offset + 1) rest

/-- The first mark of the framework in a mask, with its offset. -/
def firstMark? (mask : Mask) : Option (Nat × String) :=
  (frameworkMarks.filterMap fun mark =>
    (offsetOf? (Bytes.ofString mark) mask.shown).map (·, mark)).foldl
      (fun best found =>
        match best with
        | some b => if found.1 < b.1 then some found else some b
        | none => some found) none

/-- Warnings about findings that look incomplete. -/
def warnings (source : Bytes) (f : Findings) : List Issue :=
  let visible := visibleLines source
  let noSymbols :=
    if expectedLines ≤ visible && f.symbols.isEmpty then
      [Issue.warning s!"{visible} non-blank lines but no symbols were extracted" 1]
    else []
  let noImports :=
    if f.imports.isEmpty then
      let mask := Mask.ofSource source
      match firstMark? mask with
      | some (offset, mark) =>
        [Issue.warning ("uses `" ++ mark ++ "` but has no using directives") (mask.lineOf offset)]
      | none => []
    else []
  noSymbols ++ noImports

/-- Adds warnings, and drops private symbols where they are not wanted. -/
def finish (settings : Settings) (source : Bytes) (f : Findings) : Findings :=
  let f := { f with issues := f.issues ++ warnings source f }
  if settings.extraction.includePrivate then f else f.withoutPrivate

/-- The findings of a file before warnings. -/
def extract (settings : Settings) (path : Path) (source : Bytes) (tree : Option Node)
    (forest : Forest) : Findings :=
  if !settings.chunking.enabled || source.length ≤ settings.chunking.maxChunkBytes then
    whole settings path source tree
  else
    let mask := Mask.ofSource source
    match (Cutter.ofMask settings.chunking mask).plan tree with
    | .unchunked _ => whole settings path source tree
    | plan =>
      chunked settings path source tree (outlineOf source mask tree) forest
        (chunksOf settings source mask tree plan)

end Parse

/-- The findings of a file of which the grammar makes what is given. -/
def Findings.ofFile (settings : Settings) (path : Path) (source : Bytes) (forest : Forest) :
    Except Failure Findings := do
  Parse.check settings path source
  let tree ← forest.whole.tree? path
  return Parse.finish settings source (Parse.extract settings path source tree forest)

end SymbolAtlas
