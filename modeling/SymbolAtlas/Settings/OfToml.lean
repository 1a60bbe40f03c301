import SymbolAtlas.Failure
import SymbolAtlas.Numeric.Decimal
import SymbolAtlas.Settings.Basic
import SymbolAtlas.Toml.Document

/-!
# Settings from TOML

Each group of settings is a table whose entries may be missing; what is missing keeps its default,
and unknown entries are ignored. A group may also be written as a list of the values of its first
entries, in their order. An entry given twice is an error.

* `Settings.ofToml` reads and checks a document.
* `Settings.violation?` says which setting is out of range.
-/

namespace SymbolAtlas

namespace Toml

/-- The entries of a group whose settings have these names. -/
def Value.fields? (names : List String) : Value → Option Entries
  | .table _ entries => some entries
  | .list items => if items.length ≤ names.length then some (names.zip items) else none
  | .date => some []
  | _ => none

/-- The setting called `name`: its default when there is no such entry, and nothing when there are
two or when the value does not fit. -/
def Entries.setting? {α : Type} (entries : Entries) (name : String) (default : α)
    (read : Value → Option α) : Option α :=
  match entries.filter (·.1 == name) with
  | [] => some default
  | [(_, v)] => read v
  | _ => none

/-- A size or a count. -/
def Value.nat? : Value → Option Nat
  | .integer n => if 0 ≤ n then some n.toNat else none
  | _ => none

/-- A truth value. -/
def Value.bool? : Value → Option Bool
  | .boolean b => some b
  | _ => none

/-- A double number, which may be written as an integer. -/
def Value.double? : Value → Option Double
  | .float x => some x
  | .integer n => some (.ofDecimal (n < 0) n.natAbs 0)
  | _ => none

/-- A single number, which may be written as an integer. -/
def Value.single? : Value → Option Single
  | .float x => some x.toSingle
  | .integer n => some ⟨UInt32.ofNat (Format.single.ofDecimal (n < 0) n.natAbs 0)⟩
  | _ => none

/-- A character, written as a string of just that character. -/
def Value.char? : Value → Option Char
  | .text s =>
    match s.toList with
    | [c] => some c
    | _ => none
  | _ => none

end Toml

namespace Settings

/-- The names of the chunking settings. -/
def Chunking.names : List String :=
  ["max_chunk_bytes", "overlap_lines", "enable_chunking", "boundary_search_floor",
    "max_boundary_depth", "oversized_ratio"]

/-- Reads the chunking settings. -/
def Chunking.ofValue? (v : Toml.Value) : Option Chunking := do
  let e ← v.fields? names
  let d : Chunking := {}
  some {
    maxChunkBytes := ← e.setting? "max_chunk_bytes" d.maxChunkBytes Toml.Value.nat?
    overlapLines := ← e.setting? "overlap_lines" d.overlapLines Toml.Value.nat?
    enabled := ← e.setting? "enable_chunking" d.enabled Toml.Value.bool?
    searchFloor := ← e.setting? "boundary_search_floor" d.searchFloor Toml.Value.double?
    maxDepth := ← e.setting? "max_boundary_depth" d.maxDepth Toml.Value.nat?
    oversizedRatio := ← e.setting? "oversized_ratio" d.oversizedRatio Toml.Value.double? }

/-- The names of the extraction settings. -/
def Extraction.names : List String :=
  ["include_private_symbols", "max_file_size", "regex_fallback"]

/-- Reads the extraction settings. -/
def Extraction.ofValue? (v : Toml.Value) : Option Extraction := do
  let e ← v.fields? names
  let d : Extraction := {}
  some {
    includePrivate := ← e.setting? "include_private_symbols" d.includePrivate Toml.Value.bool?
    maxFileSize := ← e.setting? "max_file_size" d.maxFileSize Toml.Value.nat?
    textPass := ← e.setting? "regex_fallback" d.textPass Toml.Value.bool? }

/-- The names of the binding settings. -/
def Binding.names : List String :=
  ["strip_interface_prefix", "interface_prefix", "field_confidence", "local_confidence",
    "inferred_confidence", "parameter_confidence", "property_confidence", "unresolved_confidence",
    "regex_confidence"]

/-- Reads the binding settings. -/
def Binding.ofValue? (v : Toml.Value) : Option Binding := do
  let e ← v.fields? names
  let d : Binding := {}
  some {
    stripInterface := ← e.setting? "strip_interface_prefix" d.stripInterface Toml.Value.bool?
    interfaceLetter := ← e.setting? "interface_prefix" d.interfaceLetter Toml.Value.char?
    field := ← e.setting? "field_confidence" d.field Toml.Value.single?
    localVariable := ← e.setting? "local_confidence" d.localVariable Toml.Value.single?
    inferred := ← e.setting? "inferred_confidence" d.inferred Toml.Value.single?
    parameter := ← e.setting? "parameter_confidence" d.parameter Toml.Value.single?
    property := ← e.setting? "property_confidence" d.property Toml.Value.single?
    unresolved := ← e.setting? "unresolved_confidence" d.unresolved Toml.Value.single?
    textual := ← e.setting? "regex_confidence" d.textual Toml.Value.single? }

/-- Reads all settings from the entries of a document. -/
def ofEntries? (e : Toml.Entries) : Option Settings := do
  some {
    chunking := ← e.setting? "chunking" {} Chunking.ofValue?
    extraction := ← e.setting? "parser" {} Extraction.ofValue?
    binding := ← e.setting? "resolver" {} Binding.ofValue? }

/-- The confidences with their names, in the order in which they are checked. -/
def Binding.confidences (b : Binding) : List (String × Single) :=
  [("field_confidence", b.field), ("local_confidence", b.localVariable),
    ("inferred_confidence", b.inferred), ("parameter_confidence", b.parameter),
    ("property_confidence", b.property), ("unresolved_confidence", b.unresolved),
    ("regex_confidence", b.textual)]

/-- How a proportion out of range is reported. -/
def outOfRange (name written : String) : String :=
  name ++ " must be within [0, 1], got " ++ written

/-- What is wrong with the settings: chunks of no bytes, or a proportion outside zero to one. Of
several violations the first is reported. -/
def violation? (s : Settings) : Option String :=
  if s.chunking.maxChunkBytes = 0 then some "chunking.max_chunk_bytes must be positive"
  else if !s.chunking.searchFloor.inUnit then
    some (outOfRange "chunking.boundary_search_floor" s.chunking.searchFloor.plain)
  else if !s.chunking.oversizedRatio.inUnit then
    some (outOfRange "chunking.oversized_ratio" s.chunking.oversizedRatio.plain)
  else
    (s.binding.confidences.find? fun (_, x) => !x.inUnit).map fun (name, x) =>
      outOfRange ("resolver." ++ name) x.plain

/-- Reads settings from a document and checks them. -/
def ofToml (text : String) : Except Failure Settings :=
  match (Toml.Entries.ofText? text).bind ofEntries? with
  | none => .error .malformedSettings
  | some s =>
    match s.violation? with
    | some reason => .error (.invalidSettings reason)
    | none => .ok s

/-- The settings of a document that may be missing. When it is missing or faulty, all settings
keep their defaults. -/
def load (text : Option String) : Settings :=
  match text.map ofToml with
  | some (.ok s) => s
  | _ => {}

end Settings

end SymbolAtlas
