import SymbolAtlas.Json.Basic
import SymbolAtlas.Record.Basic
import SymbolAtlas.Text.Dotted
import SymbolAtlas.Text.Word

/-!
# Entities of frameworks

Roles that types play in a framework, recognised in the findings of a file and kept beside them: in
Unity by the base type, in ASP.NET by the base type or by the name.
-/

namespace SymbolAtlas

/-- The frameworks whose entities are recognised. -/
inductive Framework where
  | unity
  | aspNet
  deriving DecidableEq, Repr

namespace Framework

def all : List Framework := [.unity, .aspNet]

/-- The framework's name in records. -/
def word : Framework → String
  | .unity => "unity"
  | .aspNet => "aspnet"

end Framework

/-- A type with a role in a framework. -/
structure Entity where
  framework : String
  /-- The role. -/
  kind : String
  /-- The type's qualified name. -/
  symbol : String
  line : Nat
  deriving DecidableEq, Repr

namespace Findings

/-- The types declared with one of the base types `bases`, and the lines that say so. -/
def derivedFrom (f : Findings) (bases : List String) : List (String × Nat) :=
  (f.dependencies.filter fun d =>
    decide (d.kind = .inherits) && bases.contains (Dotted.lastSegment d.toSymbol)).map
      fun d => (d.fromSymbol, d.line)

/-- Adds the types called after `suffix` that are not listed yet. -/
def withNamed (suffix : String) (symbols : List Symbol) (found : List (String × Nat)) :
    List (String × Nat) :=
  symbols.foldl (fun found s =>
    if s.kind = .type && Str.endsWith s.name suffix && s.name != suffix
        && !found.any (·.1 == s.qualifiedName) then
      found ++ [(s.qualifiedName, s.startLine)]
    else found) found

/-- The entities of a framework among the findings. -/
def entities (f : Findings) (framework : Framework) : List Entity :=
  let make (kind : String) : String × Nat → Entity
    | (symbol, line) => { framework := framework.word, kind, symbol, line }
  match framework with
  | .unity =>
    (f.derivedFrom ["MonoBehaviour"]).map (make "component")
      ++ (f.derivedFrom ["ScriptableObject"]).map (make "asset")
  | .aspNet =>
    (withNamed "Controller" f.symbols (f.derivedFrom ["Controller", "ControllerBase"])).map
      (make "controller")

/-- The entities of all given frameworks. -/
def allEntities (f : Findings) (frameworks : List Framework) : List Entity :=
  frameworks.flatMap f.entities

end Findings

/-- The entity, by name of its parts. -/
def Entity.toJson (e : Entity) : Json :=
  .record [
    ("framework", .string e.framework),
    ("kind", .string e.kind),
    ("symbol", .string e.symbol),
    ("line", .nat e.line)]

end SymbolAtlas
