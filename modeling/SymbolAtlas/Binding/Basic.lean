import SymbolAtlas.Binding.Infer
import SymbolAtlas.Settings.Basic
import SymbolAtlas.Text.Dotted
import SymbolAtlas.Tree.Site

/-!
# Bindings

What type does the name in front of a call have? The declarations of the file itself are searched:
fields, then local variables of the enclosing members, then their parameters, then properties.

`Resolver.lookup` is that search. `Memo.resolve` puts a table in front of it that is keyed by the
name and by the member the question is asked in.
-/

namespace SymbolAtlas

/-- Where a name was found declared. -/
inductive BindingSource where
  | field
  | localVariable
  | parameter
  | property
  deriving DecidableEq, Repr

/-- A name bound to a declared or inferred type. -/
structure Binding where
  name : String
  typeName : String
  confidence : Single
  source : BindingSource
  namespaceName : Option String
  deriving DecidableEq, Repr

namespace Binding

/-- The type of a name that is declared with a type that cannot be told. -/
def unknownType : String := "unknown"

/-- The confidence in such a binding. -/
def unknownConfidence : Single := .ofHundredths 30

/-- The type could be told. -/
def isKnown (b : Binding) : Bool := b.typeName != unknownType

end Binding

namespace Site

/-- The dotted name of the namespaces around a site. Where there are none, the first file-scoped
namespace of the file counts. -/
def namespaceName? (source : Bytes) (s : Site) : Option String :=
  let around := (s.above.filter (·.2.kind.isNamespace)).filterMap (·.2.field? "name")
  if around.isEmpty then do
    let fileScoped ← s.root.namedChildren.find? (·.kind == .fileScopedNamespace)
    let name ← fileScoped.field? "name"
    some (name.text source)
  else some (Dotted.join (around.reverse.map (·.text source)))

end Site

namespace Declarator

/-- The name a declarator declares. -/
def name? (source : Bytes) (declarator : Node) : Option String :=
  (((declarator.field? "name").or (declarator.named? ["identifier"])).map
    fun n => Str.trim (n.text source)).filter (· != "")

/-- The initial value among the children of a declarator, given with their positions. `seen` tells
that an unmarked name has been passed. -/
def valueAmong (namePosition : Option Nat) : Bool → List (Node × Nat) → Option Node
  | _, [] => none
  | seen, (child, i) :: rest =>
    if namePosition == some i || child.name == "bracketed_argument_list" then
      valueAmong namePosition seen rest
    else if child.name == "identifier" && namePosition.isNone && !seen then
      valueAmong namePosition true rest
    else if child.name == "equals_value_clause" then child.namedChildren.head?
    else some child

/-- The initial value of a declarator. -/
def value? (declarator : Node) : Option Node :=
  if declarator.name == "variable_declarator" then
    valueAmong (declarator.fieldIndex? "name") false
      (declarator.children.zipIdx.filter (·.1.label.named))
  else none

end Declarator

/-- The declarations of a file that names are looked up in. -/
structure Resolver where
  source : Bytes
  settings : Settings.Binding
  fields : List Binding
  properties : List Binding

namespace Resolver

/-- The bindings that a field declaration makes. -/
def fieldBindings (source : Bytes) (settings : Settings.Binding) (s : Site) : List Binding :=
  (s.node.namedChildren.filter (·.kind == .variableDeclaration)).flatMap fun declaration =>
    let declared := ((declaration.field? "type").map (·.text source)).getD ""
    let guessed := Str.trim declared == "var" || Str.trim declared == ""
    (declaration.namedChildren.filter (·.kind == .variableDeclarator)).filterMap fun declarator =>
      (Declarator.name? source declarator).map fun name =>
        let typeName :=
          if guessed then
            ((Declarator.value? declarator).bind (Infer.typeOf? source)).getD Binding.unknownType
          else TypeName.base declared
        { name
          typeName
          confidence :=
            if typeName == Binding.unknownType then Binding.unknownConfidence else settings.field
          source := .field
          namespaceName := s.namespaceName? source }

/-- The binding that a property declaration makes. -/
def propertyBinding? (source : Bytes) (settings : Settings.Binding) (s : Site) :
    Option Binding := do
  let name ← s.node.field? "name"
  let type ← s.node.field? "type"
  let name := Str.trim (name.text source)
  let typeName := TypeName.base (type.text source)
  if name == "" || typeName == "" then none
  else some { name, typeName, confidence := settings.property, source := .property
              namespaceName := s.namespaceName? source }

/-- The resolver of a file. -/
def ofTree (source : Bytes) (settings : Settings.Binding) (root : Node) : Resolver where
  source
  settings
  fields :=
    ((Site.preorder root (·.kind == .fieldDeclaration)).filter
      (·.node.kind == .fieldDeclaration)).flatMap (fieldBindings source settings)
  properties :=
    ((Site.preorder root (·.kind == .propertyDeclaration)).filter
      (·.node.kind == .propertyDeclaration)).filterMap (propertyBinding? source settings)

/-- The declarations of `name` at one node, each with the type it is declared with. -/
def localsAt (source : Bytes) (name : String) (s : Site) : List (Site × Option String) :=
  let declared := (s.node.field? "type").map fun t => Str.trim (t.text source)
  let named (field : String) := (s.node.field? field).any fun n => Str.trim (n.text source) == name
  match s.node.name with
  | "variable_declaration" =>
    (s.namedChildren.filter fun d =>
      d.node.kind == .variableDeclarator && Declarator.name? source d.node == some name).map
        (·, declared)
  | "foreach_statement" => if named "left" then [(s, declared)] else []
  | "declaration_expression" => if named "name" then [(s, declared)] else []
  | "declaration_pattern" => if named "name" then [(s, declared)] else []
  | _ => []

/-- The declarations of `name` in a member, not counting the functions nested in it. -/
def localsIn (source : Bytes) (name : String) (member : Site) : List (Site × Option String) :=
  (Site.preorderFrom (·.name == "variable_declaration") (·.kind != .localFunction) member.above
    member.node).flatMap (localsAt source name)

/-- Of several declarations, the last one before `offset`, or else the first. -/
def closest? (offset : Nat) (found : List (Site × Option String)) : Option (Site × Option String) :=
  ((found.filter fun d => d.1.node.start < offset).getLast?).or found.head?

/-- The binding made by the declaration of a local variable. -/
def localBinding (r : Resolver) (name : String) (declaration : Site) (declared : Option String) :
    Binding :=
  let (typeName, confidence) :=
    match declared.filter fun t => t != "var" && t != "" with
    | some t => (TypeName.base t, r.settings.localVariable)
    | none =>
      match (Declarator.value? declaration.node).bind (Infer.typeOf? r.source) with
      | some t => (t, r.settings.inferred)
      | none => (Binding.unknownType, Binding.unknownConfidence)
  { name, typeName, confidence, source := .localVariable
    namespaceName := declaration.namespaceName? r.source }

/-- The local variable that a name means at a site. -/
def localAt? (r : Resolver) (name : String) (site : Site) : Option Binding :=
  (Site.membersAround site.above).findSome? fun member =>
    (closest? site.node.start (localsIn r.source name member)).map fun (declaration, declared) =>
      r.localBinding name declaration declared

/-- What the parameters of a member say about a name: nothing, or that it is one of them, of a type
that may be missing. -/
def parameterIn? (r : Resolver) (name : String) (member : Site) : Option (Option Binding) := do
  let parameters ← member.field? "parameters"
  let parameter ← parameters.namedChildren.find? fun p =>
    p.node.kind == .parameter
      && (p.node.field? "name").any fun n => Str.trim (n.text r.source) == name
  some <|
    (Infer.spelledType? r.source (parameter.node.field? "type")).map fun typeName =>
      { name, typeName, confidence := r.settings.parameter, source := .parameter
        namespaceName := parameter.namespaceName? r.source }

/-- The parameter that a name means at a site. -/
def parameterAt? (r : Resolver) (name : String) (site : Site) : Option Binding :=
  ((Site.membersAround site.above).findSome? (r.parameterIn? name)).join

/-- The binding of a name at a site. -/
def lookup (r : Resolver) (name : String) (site : Site) : Option Binding :=
  (r.fields.find? (·.name == name)).or <|
    (r.localAt? name site).or <|
      (r.parameterAt? name site).or <|
        r.properties.find? (·.name == name)

/-- The type that calls on a bound name go to. -/
def normalize (r : Resolver) (typeName : String) : String :=
  let base := TypeName.base typeName
  if r.settings.stripInterface then
    TypeName.withoutInterfaceLetter r.settings.interfaceLetter base
  else base

end Resolver

/-- Answers already given, by the address of the member asked in and the name asked for. -/
structure Memo where
  entries : List ((Option (List Nat) × String) × Option Binding) := []
  /-- Questions answered from the table. -/
  hits : Nat := 0

namespace Memo

/-- The name as it is looked up: without at signs in front. -/
def plainName (name : String) : String := String.ofList (name.toList.dropWhile (· == '@'))

/-- Answers a question, from the table if it has been asked before. -/
def resolve (r : Resolver) (m : Memo) (name : String) (site : Site) : Option Binding × Memo :=
  let name := plainName name
  let key := (site.enclosingMember?.map Site.address, name)
  match m.entries.find? (·.1 == key) with
  | some (_, found) => (found, { m with hits := m.hits + 1 })
  | none =>
    let found := r.lookup name site
    (found, { m with entries := (key, found) :: m.entries })

end Memo

end SymbolAtlas
