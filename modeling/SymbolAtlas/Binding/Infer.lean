import SymbolAtlas.Text.TypeName
import SymbolAtlas.Tree.Node

/-!
# Types of expressions

A best guess at the static type of an expression, from its form alone. The types of the parts are
worked out first; `typeFrom` combines them, and gives nothing where the form does not tell.
-/

namespace SymbolAtlas.Infer

/-- The base name of the type that a node spells out, if it spells any. -/
def spelledType? (source : Bytes) (n : Option Node) : Option String :=
  (n.map fun t => TypeName.base (t.text source)).filter (· != "")

/-- The type of an integer literal, by its suffix. -/
def integerType (text : String) : String :=
  let text := Str.lower text
  if Str.endsWith text "ul" || Str.endsWith text "lu" then "ulong"
  else if Str.endsWith text "l" then "long"
  else if Str.endsWith text "u" then "uint"
  else "int"

/-- The type of a real literal, by its suffix. -/
def realType (text : String) : String :=
  let text := Str.lower text
  if Str.endsWith text "f" then "float"
  else if Str.endsWith text "m" then "decimal"
  else "double"

/-- The type argument of a generic call, which is taken for the type of its result. -/
def genericCallType? (source : Bytes) (call : Node) : Option String := do
  let function ← call.field? "function"
  let generic ←
    match function.name with
    | "generic_name" => some function
    | "member_access_expression" => (function.field? "name").filter (·.name == "generic_name")
    | _ => none
  let arguments ← generic.named? ["type_argument_list"]
  spelledType? source arguments.namedChildren.head?

/-- The numeric types, each containing the values of those before it. -/
def numericTypes : List String := ["int", "uint", "long", "ulong", "float", "double", "decimal"]

/-- The operator between the operands of a binary expression. -/
def operator? (source : Bytes) (e left right : Node) : Option String :=
  match e.field? "operator" with
  | some op => some (Str.trim (op.text source))
  | none =>
    let bytes := source.slice e.start e.stop
    let start := left.stop - e.start
    let stop := right.start - e.start
    if start ≤ stop && bytes.isBoundary start && bytes.isBoundary stop then
      some (Str.trim (bytes.textAt start stop))
    else none

/-- The type of an arithmetic expression: the wider of the two operands'. -/
def arithmeticType? (left right : Option String) : Option String := do
  let l ← numericTypes.idxOf? (← left)
  let r ← numericTypes.idxOf? (← right)
  numericTypes[max l r]?

/-- The type of a binary expression with the given operand types. -/
def binaryType? (op : String) (left right : Option String) : Option String :=
  if ["==", "!=", "<", ">", "<=", ">=", "&&", "||"].contains op then some "bool"
  else if op == "??" then left.or right
  else if op == "+" && (left == some "string" || right == some "string") then some "string"
  else arithmeticType? left right

/-- The type of a conditional expression with the given branches. -/
def conditionalType? (thenNull elseNull : Bool) : Option String → Option String → Option String
  | some a, some b => if a == b then some a else none
  | some a, none => if elseNull then some a else none
  | none, some b => if thenNull then some b else none
  | none, none => none

/-- The type of an expression whose children have the given types. -/
def typeFrom (source : Bytes) (e : Node) (types : List (Option String)) : Option String :=
  let typeAt (i : Option Nat) : Option String := i.bind fun i => (types[i]?).join
  let typeOfField (field : String) : Option String := typeAt (e.fieldIndex? field)
  match e.name with
  | "object_creation_expression" => spelledType? source (e.field? "type")
  | "array_creation_expression" => spelledType? source (e.field? "type")
  | "cast_expression" => spelledType? source (e.field? "type")
  | "default_expression" => spelledType? source (e.field? "type")
  | "integer_literal" => some (integerType (e.text source))
  | "real_literal" => some (realType (e.text source))
  | "string_literal" => some "string"
  | "verbatim_string_literal" => some "string"
  | "raw_string_literal" => some "string"
  | "interpolated_string_expression" => some "string"
  | "character_literal" => some "char"
  | "boolean_literal" => some "bool"
  | "typeof_expression" => some "Type"
  | "as_expression" => spelledType? source ((e.field? "right").or e.namedChildren.getLast?)
  | "parenthesized_expression" => typeAt (e.children.findIdx? (·.label.named))
  | "invocation_expression" => genericCallType? source e
  | "binary_expression" => do
    let op ← operator? source e (← e.field? "left") (← e.field? "right")
    binaryType? op (typeOfField "left") (typeOfField "right")
  | "conditional_expression" =>
    let isNull (field : String) := (e.field? field).any (·.name == "null_literal")
    conditionalType? (isNull "consequence") (isNull "alternative") (typeOfField "consequence")
      (typeOfField "alternative")
  | _ => none

mutual

/-- The type of an expression, where its form tells. -/
def typeOf? (source : Bytes) : Node → Option String
  | .mk label children => typeFrom source (.mk label children) (typesOf source children)

/-- The types of several expressions. -/
def typesOf (source : Bytes) : List Node → List (Option String)
  | [] => []
  | n :: rest => typeOf? source n :: typesOf source rest

end

end SymbolAtlas.Infer
