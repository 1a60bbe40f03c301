import SymbolAtlas.CommandLine.Arguments
import SymbolAtlas.Record.Json
import SymbolAtlas.Scan.Json
import SymbolAtlas.Settings.OfToml

/-!
# Running a command

What the program prints for a list of arguments, and how it leaves the file tree. A failure is
reported as a chain: what was being done, what went wrong, and what lay behind it.
-/

namespace SymbolAtlas

/-- What a run prints, and the code it ends with. -/
structure Reply where
  code : Nat := 0
  output : String := ""
  errors : String := ""
  deriving DecidableEq, Repr

namespace CommandLine

/-- How the program is called. -/
def usageText : String :=
  "Usage: symgraph [-c PATH] parse FILE [--pretty]\n" ++
    "       symgraph [-c PATH] chunks FILE\n" ++
    "       symgraph [-c PATH] scan ROOTS... [-o PATH]\n" ++
    "       symgraph [-c PATH] stats SNAPSHOT\n"

/-- A failed run: what was printed before, and the chain of causes. -/
def failed (output : String) (causes : List String) : Reply :=
  { code := 1, output, errors := "Error: " ++ ": ".intercalate causes ++ "\n" }

/-- A failure and what lies behind it. -/
def causes (f : Failure) : List String :=
  match f with
  | .unreadable fault => [f.message, fault.message]
  | _ => [f.message]

/-- The settings in a file; all defaults when there is no such file. -/
def loadSettings (disk : Disk) (path : Path) : Except (List String) Settings :=
  if !disk.exists? path then .ok {}
  else
    match disk.textFile path with
    | .error fault => .error ["reading " ++ path.text, fault.message]
    | .ok f =>
      match Settings.ofToml f.content.toText with
      | .error failure => .error (("loading " ++ path.text) :: causes failure)
      | .ok settings => .ok settings

/-- Prints what is found in a file. -/
def runParse (settings : Settings) (disk : Disk) (file : Path) (pretty : Bool) : Reply :=
  match Scan.parseFile settings disk file with
  | .error failure => failed "" (("parsing " ++ file.text) :: causes failure)
  | .ok found =>
    { output := (if pretty then found.toJson.pretty else found.toJson.compact) ++ "\n" }

/-- The text with spaces behind it, up to a width. -/
def padRight (width : Nat) (s : String) : String :=
  s ++ String.ofList (List.replicate (width - s.length) ' ')

/-- The text with spaces in front of it, up to a width. -/
def padLeft (width : Nat) (s : String) : String :=
  String.ofList (List.replicate (width - s.length) ' ') ++ s

/-- The name of a strategy. -/
def strategyName : Strategy → String
  | .declarations => "Declarations"
  | .mixed => "Mixed"
  | .tokenScan => "TokenScan"

/-- The line that sums up a plan. -/
def planLine (file : Path) (size : Nat) : Plan → String
  | .split boundaries strategy =>
    file.text ++ ": " ++ Nat.repr size ++ " bytes, " ++ Nat.repr boundaries.length ++
      " boundaries (" ++ strategyName strategy ++ ")\n"
  | .unchunked reason => file.text ++ ": parsed whole (" ++ reason ++ ")\n"

/-- The line for a chunk. -/
def chunkLine (c : Chunk) : String :=
  "  #" ++ padRight 3 (Nat.repr c.index) ++ " lines " ++ padLeft 6 (Nat.repr c.startLine) ++ "-" ++
    padRight 6 (Nat.repr c.endLine) ++ " " ++ padLeft 7 (Nat.repr c.content.length) ++
    " bytes  " ++ c.context.qualifiedPath ++ "\n"

/-- Shows where a file is cut. -/
def runChunks (settings : Settings) (disk : Disk) (file : Path) : Reply :=
  match disk.textFile file with
  | .error fault => failed "" ["reading " ++ file.text, fault.message]
  | .ok f =>
    match Parse.plan settings file f.content f.forest.whole with
    | .error failure => failed "" (causes failure)
    | .ok plan =>
      { output := planLine file f.content.length plan.plan
          ++ String.join (plan.chunks.map chunkLine) }

/-- Builds the atlas of some roots, and stores it if asked to. -/
def runScan (settings : Settings) (disk : Disk) (roots : List Path) (output : Option Path) :
    Disk × Reply :=
  let (g, report) := Scan.build settings disk Framework.all roots
  let text := report.toJson.pretty ++ "\n" ++ g.census.toJson.pretty ++ "\n"
  match output with
  | none => (disk, { output := text })
  | some path =>
    match disk.save path { content := g.toBytes } with
    | .error fault => (disk, failed text (("saving " ++ path.text) :: causes (.unreadable fault)))
    | .ok disk => (disk, { output := text ++ "✓ Saved graph to " ++ path.text ++ "\n" })

/-- Counts what a stored atlas holds. -/
def runStats (disk : Disk) (snapshot : Path) : Reply :=
  let loaded : Except Failure Atlas :=
    match disk.file snapshot with
    | .error fault => .error (.unreadable fault)
    | .ok f => Atlas.ofBytes f.content
  match loaded with
  | .error failure => failed "" (("loading " ++ snapshot.text) :: causes failure)
  | .ok g =>
    let c := g.census
    { output :=
        "Symbol Graph\n────────────\n" ++
          "Repositories:  " ++ Nat.repr c.repositories ++ "\n" ++
          "Files:         " ++ Nat.repr c.files ++ "\n" ++
          "Symbols:       " ++ Nat.repr c.symbols ++ "\n" ++
          "Dependencies:  " ++ Nat.repr c.dependencyEdges ++ "\n" ++
          "Unresolved:    " ++ Nat.repr c.unresolved ++ "\n" ++
          "Entities:      " ++ Nat.repr c.entities ++ "\n" }

/-- Answers a request. -/
def answer (disk : Disk) (request : Request) : Disk × Reply :=
  match loadSettings disk request.settings with
  | .error chain => (disk, failed "" chain)
  | .ok settings =>
    match request.command with
    | .parse file pretty => (disk, runParse settings disk file pretty)
    | .chunks file => (disk, runChunks settings disk file)
    | .scan roots output => runScan settings disk roots output
    | .stats snapshot => (disk, runStats disk snapshot)

/-- Runs the program. Arguments that make no sense end it with code 2. -/
def run (disk : Disk) (args : List String) : Disk × Reply :=
  match Arguments.request args with
  | .error .misuse => (disk, { code := 2 })
  | .error .help => (disk, { output := usageText })
  | .ok request => answer disk request

end CommandLine

end SymbolAtlas
