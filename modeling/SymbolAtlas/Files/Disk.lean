import SymbolAtlas.Failure
import SymbolAtlas.Parse.Basic

/-!
# Files and folders

A file tree as a value, with a current folder that relative paths start from. A path is followed
name by name: every name but the last must be that of a folder, and so must the last when something
follows it, be it only a slash.
-/

namespace SymbolAtlas

/-- A file: its bytes, and what the grammar makes of its text. -/
structure SourceFile where
  content : Bytes
  forest : Forest := { whole := .tree .empty }

/-- A file or a folder. -/
inductive Item where
  | file (f : SourceFile)
  | folder (items : List (String × Item))

namespace Item

/-- The item is a folder. -/
def isFolder : Item → Bool
  | .folder _ => true
  | .file _ => false

/-- The item under a name in a folder. -/
def child? (item : Item) (name : String) : Option Item :=
  match item with
  | .folder items => items.lookup name
  | .file _ => none

/-- The item at the end of a list of names. -/
def find? : List String → Item → Option Item
  | [], item => some item
  | name :: rest, item => (item.child? name).bind (find? rest)

/-- The folder with an item put under a name, or taken away. -/
def setChild (item : Item) (name : String) (new : Option Item) : Item :=
  match item with
  | .file f => .file f
  | .folder items =>
    match new with
    | none => .folder (items.filter fun i => i.1 != name)
    | some new =>
      if items.any fun i => i.1 == name then
        .folder (items.map fun i => if i.1 == name then (name, new) else i)
      else .folder (items ++ [(name, new)])

/-- Puts an item at the end of a list of names, making the folders on the way, or takes it away. -/
def put (new : Option Item) : List String → Item → Item
  | [], item => new.getD item
  | [name], item => item.setChild name new
  | name :: rest, item =>
    item.setChild name (some (put new rest ((item.child? name).getD (.folder []))))

end Item

/-- A file tree and the current folder in it. -/
structure Disk where
  top : Item := .folder []
  /-- The names that lead to the current folder. -/
  here : List String := []

namespace Disk

/-- Follows the pieces of a path from a place. -/
def follow (disk : Disk) : List String → List (List Char) → Except FileFault (List String)
  | place, [] => .ok place
  | place, piece :: rest =>
    match disk.top.find? place with
    | none => .error .notFound
    | some (.file _) => .error .notDirectory
    | some (.folder items) =>
      if piece == [] || piece == ['.'] then follow disk place rest
      else if piece == ['.', '.'] then follow disk place.dropLast rest
      else
        let name := String.ofList piece
        if items.any fun i => i.1 == name then follow disk (place ++ [name]) rest
        else .error .notFound

/-- The place that a path starts from. -/
def startOf (disk : Disk) (path : Path) : List String :=
  if Str.startsWith path.text "/" then [] else disk.here

/-- The place that a path leads to. -/
def locate (disk : Disk) (path : Path) : Except FileFault (List String) :=
  if path.text == "" then .error .notFound
  else disk.follow (disk.startOf path) (Path.pieces path.text.toList)

/-- The item that a path leads to. -/
def item (disk : Disk) (path : Path) : Except FileFault Item := do
  match disk.top.find? (← disk.locate path) with
  | some item => .ok item
  | none => .error .notFound

/-- The file that a path leads to. -/
def file (disk : Disk) (path : Path) : Except FileFault SourceFile := do
  match ← disk.item path with
  | .file f => .ok f
  | .folder _ => .error .isDirectory

/-- The file that a path leads to, which must hold text. -/
def textFile (disk : Disk) (path : Path) : Except FileFault SourceFile := do
  let f ← disk.file path
  if (Utf8.decode? f.content).isSome then .ok f else .error .invalidText

/-- Something exists under a path. -/
def exists? (disk : Disk) (path : Path) : Bool := (disk.item path).toOption.isSome

/-- The names that a path adds to the place it starts from, whether they exist or not. -/
def target (disk : Disk) (path : Path) : List String :=
  (Path.pieces path.text.toList).foldl (fun place piece =>
    if piece == [] || piece == ['.'] then place
    else if piece == ['.', '.'] then place.dropLast
    else place ++ [String.ofList piece]) (disk.startOf path)

/-- What keeps the folders on the way to a place from being made: a file among them. `done` leads to
the folder reached so far. -/
def obstacle? (disk : Disk) (done : List String) : List String → Option FileFault
  | [] => none
  | name :: rest =>
    match disk.top.find? (done ++ [name]) with
    | some (.file _) => some (if rest.isEmpty then .alreadyExists else .notDirectory)
    | _ => obstacle? disk (done ++ [name]) rest

/-- Stores a file under a path, making the folders on the way. -/
def save (disk : Disk) (path : Path) (f : SourceFile) : Except FileFault Disk :=
  let place := disk.target path
  match disk.obstacle? [] place.dropLast with
  | some fault => .error fault
  | none =>
    match disk.top.find? place, Str.endsWith path.text "/" with
    | some (.folder _), _ | none, true => .error .isDirectory
    | some (.file _), true => .error .notDirectory
    | _, false => .ok { disk with top := disk.top.put (some (.file f)) place }

/-- Makes a folder under a path, unless there is one. -/
def makeFolder (disk : Disk) (path : Path) : Disk :=
  let place := disk.target path
  match disk.top.find? place with
  | some _ => disk
  | none => { disk with top := disk.top.put (some (.folder [])) place }

/-- Takes away what a path leads to. -/
def delete (disk : Disk) (path : Path) : Disk :=
  match disk.locate path with
  | .ok place => { disk with top := disk.top.put none place }
  | .error _ => disk

end Disk

end SymbolAtlas
