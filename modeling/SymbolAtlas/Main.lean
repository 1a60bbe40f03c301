import SymbolAtlas.CommandLine.Run
import SymbolAtlas.Json.Read
import SymbolAtlas.Tree.Notation

/-!
# The program

Reads the files that a request speaks of into a file tree, answers the request there, prints the
reply and stores what was to be stored. The syntax trees of a source file are expected beside it, in
a file with `.trees` added to its name: a list of the tree of the whole file and, if it is cut, the
tree of the wrapped text of each chunk.
-/

namespace SymbolAtlas.Main

/-- The names in an absolute path. -/
def names (path : String) : List String :=
  (Path.pieces path.toList).filterMap fun piece =>
    if piece.isEmpty then none else some (String.ofList piece)

/-- The bytes of a file, or none if it cannot be read. -/
def readBytes? (path : String) : IO (Option Bytes) := do
  try
    return some (← IO.FS.readBinFile path).data.toList
  catch _ => return none

/-- The syntax trees that a text lists. -/
def forestOf (text : String) : Forest :=
  match Json.ofText? text with
  | some (.list items) =>
    match Node.listOfJson? items with
    | some (whole :: chunks) => { whole, chunks := chunks.map .tree }
    | _ => { whole := .tree .empty }
  | _ => { whole := .tree .empty }

/-- The syntax trees beside a source file. -/
def readForest (path : String) : IO Forest := do
  match ← readBytes? (path ++ ".trees") with
  | some bytes => return forestOf bytes.toText
  | none => return { whole := .tree .empty }

/-- A file with its trees. -/
def readFile? (path : String) : IO (Option Item) := do
  match ← readBytes? path with
  | none => return none
  | some content =>
    let forest ← if (Path.mk path).isCSharp then readForest path else pure { whole := .tree .empty }
    return some (.file { content, forest })

/-- Whether there is a folder under a path. -/
def isFolder (path : String) : IO Bool := do
  try
    return ← (← IO.FS.realPath path).isDir
  catch _ => return false

/-- The item under a path, down to the last file when `deep`, and a folder without its items when
not. Files that are neither sources nor ignore rules come without their bytes when `deep`. -/
partial def readItem? (deep : Bool) (path : String) : IO (Option Item) := do
  if ← isFolder path then
    if deep then
      let entries ← (← IO.FS.realPath path).readDir
      let items ← entries.toList.filterMapM fun entry => do
        let item ← readItem? true (path ++ "/" ++ entry.fileName)
        return item.map fun item => (entry.fileName, item)
      return some (.folder items)
    else return some (.folder [])
  else if !deep || (Path.mk path).isCSharp || Str.endsWith path "ignore"
      || Str.endsWith path "/exclude" then readFile? path
  else return some (.file { content := [] })

/-- The file tree with the item under a path read into it. -/
def addItem (deep : Bool) (disk : Disk) (path : Path) : IO Disk := do
  let place := disk.target path
  match ← readItem? deep ("/" ++ "/".intercalate place) with
  | some item => return { disk with top := disk.top.put (some item) place }
  | none => return disk

/-- The file tree with the ignore rules of all folders around a path read into it. -/
def addRulesAround (disk : Disk) (path : Path) : IO Disk := do
  let place := disk.target path
  (List.range place.length).foldlM (fun disk depth => do
    let folder := "/" ++ String.join ((place.take depth).map (· ++ "/"))
    [".symgraphignore", ".ignore", ".gitignore", ".git", ".git/info/exclude"].foldlM
      (fun disk name => addItem false disk ⟨folder ++ name⟩) disk) disk

/-- The part of the file system that a request speaks of. -/
def readDisk (request : Request) : IO Disk := do
  let here := names (← IO.currentDir).toString
  let disk : Disk := { top := (Item.folder []).put (some (.folder [])) here, here }
  let disk ← addItem false disk request.settings
  match request.command with
  | .parse file _ | .chunks file | .stats file => addItem false disk file
  | .scan roots output => do
    let disk ← roots.foldlM addRulesAround disk
    let disk ← roots.foldlM (addItem true) disk
    match output with
    | some path => addItem false disk path
    | none => return disk

/-- Stores the file that a request has made. -/
def writeOutput (disk : Disk) (path : Path) : IO Unit := do
  match disk.file path with
  | .error _ => return
  | .ok f =>
    let place := disk.target path
    IO.FS.createDirAll ("/" ++ "/".intercalate place.dropLast)
    IO.FS.writeBinFile ("/" ++ "/".intercalate place) ⟨f.content.toArray⟩

end SymbolAtlas.Main

open SymbolAtlas in
def main (args : List String) : IO UInt32 := do
  match Arguments.request args with
  | .error .help =>
    IO.print CommandLine.usageText
    return 0
  | .error .misuse =>
    IO.eprint CommandLine.usageText
    return 2
  | .ok request =>
    let (disk, reply) := CommandLine.answer (← Main.readDisk request) request
    match request.command, reply.code with
    | .scan _ (some path), 0 => Main.writeOutput disk path
    | _, _ => pure ()
    IO.print reply.output
    IO.eprint reply.errors
    return UInt32.ofNat reply.code
