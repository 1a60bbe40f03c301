import SymbolAtlas.Json.Basic
import SymbolAtlas.Record.Basic

/-!
# Findings as JSON
-/

namespace SymbolAtlas

def Symbol.toJson (s : Symbol) : Json :=
  .record [
    ("name", .string s.name),
    ("qualified_name", .string s.qualifiedName),
    ("kind", .string s.kind.word),
    ("start_line", .nat s.startLine),
    ("end_line", .nat s.endLine),
    ("is_exported", .bool s.isExported),
    ("visibility", .string s.visibility.word),
    ("signature", .option .string s.signature)]

def Dependency.toJson (d : Dependency) : Json :=
  .record [
    ("from_symbol", .string d.fromSymbol),
    ("to_symbol", .string d.toSymbol),
    ("kind", .string d.kind.word),
    ("line_number", .nat d.line),
    ("confidence", .single d.confidence),
    ("calling_object", .option .string d.callingObject),
    ("resolved_receiver_type", .option .string d.receiverType),
    ("qualified_context", .option .string d.qualifiedContext),
    ("parameter_context", .option .string d.parameterContext)]

def Import.toJson (i : Import) : Json :=
  .record [
    ("source", .string i.source),
    ("alias", .option .string i.aliasName),
    ("kind", .string i.kind.word),
    ("is_global", .bool i.isGlobal),
    ("line", .nat i.line)]

def Export.toJson (e : Export) : Json :=
  .record [
    ("name", .string e.name),
    ("qualified_name", .string e.qualifiedName),
    ("kind", .string e.kind.word),
    ("line", .nat e.line)]

def Issue.toJson (i : Issue) : Json :=
  .record [
    ("message", .string i.message),
    ("line", .nat i.line),
    ("column", .nat i.column),
    ("severity", .string i.severity.word)]

def Tally.toJson (t : Tally) : Json :=
  .record [
    ("chunks_processed", .nat t.chunksProcessed),
    ("duplicates_removed", .nat t.duplicatesRemoved),
    ("cross_chunk_references_found", .nat t.crossChunkReferences)]

def Findings.toJson (f : Findings) : Json :=
  .record [
    ("symbols", .array Symbol.toJson f.symbols),
    ("dependencies", .array Dependency.toJson f.dependencies),
    ("imports", .array Import.toJson f.imports),
    ("exports", .array Export.toJson f.exports),
    ("errors", .array Issue.toJson f.issues),
    ("metadata", f.tally.toJson)]

end SymbolAtlas
