import SymbolAtlas.Json.Basic
import SymbolAtlas.Settings.Basic

/-!
# Settings as JSON
-/

namespace SymbolAtlas.Settings

/-- The chunking settings, by name. -/
def Chunking.toJson (c : Chunking) : Json :=
  .record [
    ("max_chunk_bytes", .nat c.maxChunkBytes),
    ("overlap_lines", .nat c.overlapLines),
    ("enable_chunking", .bool c.enabled),
    ("boundary_search_floor", .double c.searchFloor),
    ("max_boundary_depth", .nat c.maxDepth),
    ("oversized_ratio", .double c.oversizedRatio)]

/-- The extraction settings, by name. -/
def Extraction.toJson (e : Extraction) : Json :=
  .record [
    ("include_private_symbols", .bool e.includePrivate),
    ("max_file_size", .nat e.maxFileSize),
    ("regex_fallback", .bool e.textPass)]

/-- The binding settings, by name. -/
def Binding.toJson (b : Binding) : Json :=
  .record [
    ("strip_interface_prefix", .bool b.stripInterface),
    ("interface_prefix", .string (String.singleton b.interfaceLetter)),
    ("field_confidence", .single b.field),
    ("local_confidence", .single b.localVariable),
    ("inferred_confidence", .single b.inferred),
    ("parameter_confidence", .single b.parameter),
    ("property_confidence", .single b.property),
    ("unresolved_confidence", .single b.unresolved),
    ("regex_confidence", .single b.textual)]

/-- All settings, in their groups. -/
def toJson (s : Settings) : Json :=
  .record [
    ("chunking", s.chunking.toJson),
    ("parser", s.extraction.toJson),
    ("resolver", s.binding.toJson)]

end SymbolAtlas.Settings
