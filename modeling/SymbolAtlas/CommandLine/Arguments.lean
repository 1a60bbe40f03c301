import SymbolAtlas.Text.Path

/-!
# Arguments

What the program can be asked to do, and how a list of arguments says it. Options may be given as
`--name value`, `--name=value`, `-n value`, `-nvalue` or `-n=value`, each at most once; after a lone
double hyphen nothing is an option. The settings file is named in front of the command, all other
options behind it.
-/

namespace SymbolAtlas

/-- What to do. -/
inductive Command where
  /-- Print what is found in a file. -/
  | parse (file : Path) (pretty : Bool)
  /-- Show where a file is cut. -/
  | chunks (file : Path)
  /-- Build the atlas of some roots, and store it if asked to. -/
  | scan (roots : List Path) (output : Option Path)
  /-- Count what a stored atlas holds. -/
  | stats (snapshot : Path)
  deriving DecidableEq, Repr

/-- A command and the settings file it goes by. -/
structure Request where
  settings : Path := ⟨"symgraph.toml"⟩
  command : Command
  deriving DecidableEq, Repr

/-- Why arguments ask for nothing. -/
inductive Usage where
  /-- Help was asked for. -/
  | help
  /-- The arguments make no sense. -/
  | misuse
  deriving DecidableEq, Repr

namespace Arguments

/-- An option. -/
structure Flag where
  long : String
  short : Option Char := none
  takesValue : Bool := false
  deriving DecidableEq, Repr

/-- Asks for help. -/
def helpFlag : Flag := { long := "help", short := some 'h' }

/-- What has been read of the arguments. -/
structure Parsed where
  /-- Options given, with their values; an option without a value has the empty one. -/
  flags : List (String × String) := []
  /-- All other arguments. -/
  plain : List String := []
  deriving DecidableEq, Repr

/-- Notes an option, which may be given once only and whose value may not be empty. -/
def Parsed.note (p : Parsed) (flag : Flag) (value : String) : Except Usage Parsed :=
  if flag = helpFlag then .error .help
  else if p.flags.any (fun f => f.1 == flag.long) then .error .misuse
  else if flag.takesValue && value == "" then .error .misuse
  else .ok { p with flags := p.flags ++ [(flag.long, value)] }

/-- The argument is an option: it begins with a hyphen and goes on. -/
def isFlag (arg : String) : Bool := Str.startsWith arg "-" && arg != "-"

/-- Splits a long option at its first equals sign. -/
def splitEquals (cs : List Char) : String × Option String :=
  match Chars.splitAt? ['='] cs with
  | some (name, value) => (String.ofList name, some (String.ofList value))
  | none => (String.ofList cs, none)

/-- An option as it was given: the option and the value attached to it. -/
def flagOf? (flags : List Flag) (arg : String) : Option (Flag × Option String) :=
  match arg.toList with
  | '-' :: '-' :: cs =>
    let (name, value) := splitEquals cs
    (flags.find? (·.long == name)).map fun flag => (flag, value)
  | '-' :: c :: cs =>
    (flags.find? (·.short == some c)).map fun flag =>
      match cs with
      | [] => (flag, none)
      | '=' :: value => (flag, some (String.ofList value))
      | _ => (flag, some (String.ofList cs))
  | _ => none

/-- Reads arguments, `awaiting` being an option whose value comes next. With `stopEarly`, what
follows the first argument that is no option is left to somebody else and comes with it. -/
def read (flags : List Flag) (stopEarly : Bool) (awaiting : Option Flag) (p : Parsed) :
    List String → Except Usage Parsed
  | [] => if awaiting.isSome then .error .misuse else .ok p
  | arg :: rest =>
    match awaiting with
    | some flag =>
      if isFlag arg then .error .misuse
      else (p.note flag arg).bind fun p => read flags stopEarly none p rest
    | none =>
      if arg == "--" then
        .ok { p with plain := p.plain ++ (if stopEarly then ["--"] else []) ++ rest }
      else if isFlag arg then
        match flagOf? (helpFlag :: flags) arg with
        | none => .error .misuse
        | some (flag, attached) =>
          match flag.takesValue, attached with
          | true, some value => (p.note flag value).bind fun p => read flags stopEarly none p rest
          | true, none => read flags stopEarly (some flag) p rest
          | false, none => (p.note flag "").bind fun p => read flags stopEarly none p rest
          | false, some _ => .error .misuse
      else if stopEarly then .ok { p with plain := arg :: rest }
      else read flags stopEarly none { p with plain := p.plain ++ [arg] } rest

/-- The value of an option. -/
def Parsed.value? (p : Parsed) (long : String) : Option String := p.flags.lookup long

/-- A path, which may not be empty. -/
def path (text : String) : Except Usage Path :=
  if text == "" then .error .misuse else .ok ⟨text⟩

/-- The only plain argument, as a path. -/
def Parsed.onlyPath (p : Parsed) : Except Usage Path :=
  match p.plain with
  | [text] => path text
  | _ => .error .misuse

/-- The names that help can be asked for. -/
def topics : List String := ["parse", "chunks", "scan", "stats", "help"]

/-- Reads a command from its name and its arguments. -/
def command (name : String) (args : List String) : Except Usage Command :=
  match name with
  | "parse" => do
    let p ← read [{ long := "pretty" }] false none {} args
    return .parse (← p.onlyPath) (p.value? "pretty").isSome
  | "chunks" => do
    let p ← read [] false none {} args
    return .chunks (← p.onlyPath)
  | "scan" => do
    let p ← read [{ long := "output", short := some 'o', takesValue := true }] false none {} args
    if p.plain.isEmpty then throw .misuse
    return .scan (← p.plain.mapM path) ((p.value? "output").map Path.mk)
  | "stats" => do
    let p ← read [] false none {} args
    return .stats (← p.onlyPath)
  | "help" => throw (if args.length ≤ 1 && args.all topics.contains then .help else .misuse)
  | _ => throw .misuse

/-- Reads all arguments of the program. -/
def request (args : List String) : Except Usage Request := do
  let p ← read [{ long := "config", short := some 'c', takesValue := true }] true none {} args
  match p.plain with
  | [] => throw .misuse
  | name :: rest =>
    let command ← command name rest
    match p.value? "config" with
    | some text => return { settings := ⟨text⟩, command }
    | none => return { command }

end Arguments

end SymbolAtlas
