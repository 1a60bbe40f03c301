import SymbolAtlas.Json.Basic
import SymbolAtlas.Scope.Basic

/-!
# Scopes as JSON
-/

namespace SymbolAtlas

/-- The word for a kind of scope in records. -/
def ScopeKind.word : ScopeKind → String
  | .nameSpace => "Namespace"
  | .type => "Type"
  | .member => "Member"

def Frame.toJson (f : Frame) : Json :=
  .record [
    ("name", .string f.name),
    ("kind", .string f.kind.word),
    ("keyword", .string f.keyword),
    ("file_scoped", .bool f.fileScoped),
    ("pending", .bool f.pending),
    ("end_line", .nat f.endLine)]

def Context.toJson (c : Context) : Json :=
  .record [("frames", .array Frame.toJson c.frames), ("open_blocks", .nat c.openBlocks)]

/-- What follows from a context. -/
def Context.factsJson (c : Context) : Json :=
  .record [
    ("prelude", .string c.prelude),
    ("openers", .array (fun f => .string f.opener) c.frames),
    ("namespace_name", .option .string c.namespaceName?),
    ("type_names", .array .string c.typeNames),
    ("qualified_path", .string c.qualifiedPath),
    ("is_empty", .bool c.isEmpty),
    ("scope_braces", .nat c.scopeBraces),
    ("opened_braces", .nat c.openedBraces)]

def Scope.toJson (s : Scope) : Json :=
  .record [
    ("name", .string s.name),
    ("qualified_name", .string s.qualifiedName),
    ("kind", .string s.kind.word),
    ("keyword", .string s.keyword),
    ("file_scoped", .bool s.fileScoped),
    ("header_line", .nat s.headerLine),
    ("start_line", .nat s.startLine),
    ("end_line", .nat s.endLine),
    ("open_byte", .nat s.openByte),
    ("close_byte", .nat s.closeByte),
    ("start_byte", .nat s.startByte)]

end SymbolAtlas
