import SymbolAtlas.Text.TypeName
import SymbolAtlas.Tree.Site

/-!
# The form of a call

Takes the called expression of an invocation apart into the method's name and what it is called on.
-/

namespace SymbolAtlas

/-- What a method is called on. -/
inductive Receiver where
  /-- Nothing: the method is named alone. -/
  | implicit
  | this
  /-- A plain name, with the place it stands at. -/
  | named (name : String) (site : Site)
  /-- Any other expression, by its text. -/
  | expression (text : String)

namespace Receiver

/-- The number of characters kept of the text of a receiver. -/
def textLimit : Nat := 60

/-- The receiver that an expression is. -/
def ofExpression (source : Bytes) (e : Site) : Receiver :=
  let text := e.node.text source
  let other := expression (Str.clip text textLimit)
  let isThis (n : Node) := n.name == "this_expression" || n.name == "this"
  if isThis e.node then .this
  else if e.node.name == "identifier" then .named text e
  else if e.node.name == "member_access_expression" then
    match e.field? "expression", e.field? "name" with
    | some owner, some name =>
      if isThis owner.node && name.node.name == "identifier" then
        .named (name.node.text source) name
      else other
    | _, _ => other
  else if Str.trim text == "this" then .this
  else other

end Receiver

namespace Call

/-- The identifier that a name consists of, type arguments left out. -/
def simpleName? (source : Bytes) (n : Node) : Option String :=
  let name :=
    if n.name == "generic_name" then
      match n.named? ["identifier"] with
      | some c => c.text source
      | none => String.ofList (Chars.trim (Chars.before ['<'] (n.text source).toList))
    else Str.trim (n.text source)
  if TypeName.isIdentifier name then some name else none

/-- The child that names the member of a binding such as `.Name`. -/
def boundName? (n : Node) : Option Node := (n.field? "name").or n.namedChildren.getLast?

/-- The part of a conditional access in front of the question mark. -/
def condition? (s : Site) : Option Site := (s.field? "condition").or s.namedChildren.head?

/-- The part in front of the question mark of the nearest conditional access around a place. -/
def conditionAround? : List (Nat × Node) → Option Site
  | [] => none
  | (_, n) :: above =>
    if n.name == "conditional_access_expression" then condition? { node := n, above }
    else conditionAround? above

/-- The text before the last dot, and the text after it. -/
def splitLastDot? (cs : List Char) : Option (List Char × List Char) :=
  if cs.contains '.' then
    let tail := (cs.reverse.takeWhile (· != '.')).reverse
    some (cs.take (cs.length - tail.length - 1), tail)
  else none

/-- A call of some other form, taken apart by its text. -/
def ofText? (text : String) : Option (Receiver × String) := do
  let (head, tail) ← splitLastDot? text.toList
  let name := String.ofList (Chars.trim tail)
  if TypeName.isIdentifier name then
    let head := String.ofList (Chars.trim (Chars.dropEndWhile (· == '?') head))
    some (.expression (Str.clip head Receiver.textLimit), name)
  else none

/-- What is called, and on what, by an expression in front of arguments. -/
def ofFunction? (source : Bytes) (f : Site) : Option (Receiver × String) :=
  match f.node.name with
  | "identifier" => some (.implicit, f.node.text source)
  | "generic_name" => (simpleName? source f.node).map (.implicit, ·)
  | "member_access_expression" => do
    let name ← simpleName? source (← f.node.field? "name")
    let owner ← f.field? "expression"
    some (.ofExpression source owner, name)
  | "member_binding_expression" => do
    let name ← simpleName? source (← boundName? f.node)
    match conditionAround? f.above with
    | some condition => some (.ofExpression source condition, name)
    | none => some (.expression "", name)
  | "conditional_access_expression" => do
    let condition ← condition? f
    let binding ←
      (f.node.namedChildren.filter (·.name == "member_binding_expression")).getLast?
    let name ← simpleName? source (← boundName? binding)
    some (.ofExpression source condition, name)
  | _ => ofText? (f.node.text source)

end Call

end SymbolAtlas
