import SymbolAtlas.Files.Disk
import SymbolAtlas.Files.Ignore

/-!
# Walking a file tree

Finds the source files below a root. Hidden items and ignored ones are passed over, and an ignored
folder is not entered; a root itself is never passed over.

Three kinds of ignore file count, each in its own folder and all below it: `.symgraphignore`, which
goes before `.ignore`, which goes before the files that a version control system keeps. The latter
count only inside a working copy. Within one kind the nearest folder whose rules fit decides.
-/

namespace SymbolAtlas

/-- The ignore rules of a folder. -/
structure FolderRules where
  /-- The number of names that lead to the folder. -/
  depth : Nat
  own : List IgnoreRule
  general : List IgnoreRule
  versioned : List IgnoreRule
  excluded : List IgnoreRule
  /-- The folder is the top of a working copy. -/
  isWorkingCopy : Bool

namespace FolderRules

/-- The rules in the file under a list of names, if it is one. -/
def rulesIn (folder : Item) (names : List String) : List IgnoreRule :=
  match folder.find? names with
  | some (.file f) => IgnoreRule.ofContent f.content
  | _ => []

/-- The rules of a folder that `depth` names lead to. -/
def ofFolder (depth : Nat) (folder : Item) : FolderRules where
  depth := depth
  own := rulesIn folder [".symgraphignore"]
  general := rulesIn folder [".ignore"]
  versioned := rulesIn folder [".gitignore"]
  excluded := rulesIn folder [".git", "info", "exclude"]
  isWorkingCopy := (folder.child? ".git").isSome

/-- The rules of the folders on the way to a place, the nearest first; `below` holds those of the
folders above `item`, which `depth` names lead to. -/
def along (below : List FolderRules) (depth : Nat) : List String → Item → List FolderRules
  | [], item => ofFolder depth item :: below
  | name :: rest, item =>
    let below := ofFolder depth item :: below
    match item.child? name with
    | some child => if child.isFolder then along below (depth + 1) rest child else below
    | none => below

/-- The nearest verdict of one kind of rules on a place. -/
def nearest? (kind : FolderRules → List IgnoreRule) (levels : List FolderRules)
    (place : List String) (isFolder : Bool) : Option Verdict :=
  levels.findSome? fun level =>
    let path := Bytes.ofString ("/".intercalate (place.drop level.depth))
    IgnoreRule.verdict? (kind level) path isFolder

/-- The levels from the nearest up to the top of the working copy around it; none outside of one. -/
def inWorkingCopy : List FolderRules → List FolderRules
  | [] => []
  | level :: above =>
    if level.isWorkingCopy then [level]
    else
      match inWorkingCopy above with
      | [] => []
      | more => level :: more

/-- What the rules of the folders around a place say about it. -/
def verdict? (levels : List FolderRules) (place : List String) (isFolder : Bool) :
    Option Verdict :=
  let copy := inWorkingCopy levels
  (nearest? own levels place isFolder).or <| (nearest? general levels place isFolder).or <|
    (nearest? versioned copy place isFolder).or (nearest? excluded copy place isFolder)

/-- The place is passed over: it is ignored, or hidden and not brought back. -/
def passesOver (levels : List FolderRules) (place : List String) (isFolder : Bool) : Bool :=
  match verdict? levels place isFolder with
  | some .ignored => true
  | some .restored => false
  | none => place.getLast?.any (Str.startsWith · ".")

end FolderRules

/-- A file found below a root. -/
structure Found where
  root : Path
  path : Path
  /-- The names that lead from the root to the file. -/
  below : List String
  file : SourceFile

namespace Walk

/-- Names of folders that hold no sources of their own: build output, packages and the data of
tools. -/
def generatedNames : List String :=
  ["bin", "obj", "packages", "node_modules", ".git", ".svn", ".hg", ".vs", ".idea", "TestResults",
    "artifacts", "Library", "Temp"]

mutual

/-- The files of an item that is not passed over. `place` leads to it from the top of the tree and
`below` from the root; `levels` are the rules of the folders around it. -/
def files (root path : Path) (levels : List FolderRules) (place below : List String) :
    Item → List Found
  | .file file => [{ root, path, below, file }]
  | .folder items =>
    let rules := FolderRules.ofFolder place.length (.folder items)
    filesIn root path (rules :: levels) place below items

/-- The files of the items of a folder. -/
def filesIn (root path : Path) (levels : List FolderRules) (place below : List String) :
    List (String × Item) → List Found
  | [] => []
  | (name, item) :: rest =>
    let here :=
      if FolderRules.passesOver levels (place ++ [name]) item.isFolder then []
      else files root (path.join name) levels (place ++ [name]) (below ++ [name]) item
    here ++ filesIn root path levels place below rest

end

/-- The files below a root. -/
def under (disk : Disk) (root : Path) : List Found :=
  match disk.locate root with
  | .error _ => []
  | .ok place =>
    match disk.top.find? place with
    | none => []
    | some item =>
      let around := if place.isEmpty then [] else FolderRules.along [] 0 place.dropLast disk.top
      files root root around place [] item

/-- The source files below a root: those with C# that lie in no folder of generated files. -/
def sources (disk : Disk) (root : Path) : List Found :=
  (under disk root).filter fun f =>
    !f.below.any generatedNames.contains && f.path.isCSharp

end Walk

end SymbolAtlas
