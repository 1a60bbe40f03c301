import SymbolAtlas.Binding.Basic
import SymbolAtlas.Json.Basic

/-!
# Bindings as JSON
-/

namespace SymbolAtlas

/-- The word for the source of a binding in records. -/
def BindingSource.word : BindingSource → String
  | .field => "field"
  | .localVariable => "local"
  | .parameter => "parameter"
  | .property => "property"

def Binding.toJson (b : Binding) : Json :=
  .record [
    ("name", .string b.name),
    ("type_name", .string b.typeName),
    ("confidence", .single b.confidence),
    ("source", .string b.source.word),
    ("namespace", .option .string b.namespaceName),
    ("known", .bool b.isKnown)]

end SymbolAtlas
