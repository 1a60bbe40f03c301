import SymbolAtlas.Scope.Basic
import SymbolAtlas.Tree.Node

/-!
# The outline of a syntax tree

Walks a whole-file tree and records every namespace, type and member body, with the names of the
namespaces and types around it. A file-scoped namespace covers the siblings that follow it.
-/

namespace SymbolAtlas.Outline

/-- The word that declares a namespace or type. -/
def keywordOf (name : String) : String :=
  match name with
  | "namespace_declaration" => "namespace"
  | "file_scoped_namespace_declaration" => "namespace"
  | "class_declaration" => "class"
  | "struct_declaration" => "struct"
  | "interface_declaration" => "interface"
  | "enum_declaration" => "enum"
  | "record_struct_declaration" => "record struct"
  | _ => "record"

/-- The word recorded for a member. -/
def memberKeyword : Kind → String
  | .propertyDeclaration => "property"
  | .indexerDeclaration => "indexer"
  | .eventDeclaration => "event"
  | _ => "method"

/-- The scope of a member with the given body. -/
def memberScope (source : Bytes) (path : List String) (name keyword : String) (n body : Node) :
    Scope where
  name
  qualifiedName := Dotted.join (path ++ [name])
  kind := .member
  keyword
  fileScoped := false
  headerLine := n.startLine source
  startLine := n.startLine source
  endLine := n.endLine source
  openByte := body.start + 1
  closeByte := body.stop - 1
  startByte := n.start

/-- The body of a member, or the list of its accessors. -/
def memberBody? (n : Node) : Option Node :=
  let braced := ["block", "accessor_list"]
  (((n.field? "body").or (n.field? "accessors")).or (n.named? braced)).filter
    fun b => braced.contains b.name

/-- The scope of one accessor that has a body of its own. -/
def accessorScope? (source : Bytes) (path : List String) (accessor : Node) : Option Scope := do
  let block ← accessor.children.find? (·.name == "block")
  let word ← accessor.children.find? fun c =>
    ["get", "set", "init", "add", "remove"].contains c.name
  some (memberScope source path word.name "accessor" accessor block)

/-- The scopes of a member and of its accessors. -/
def memberScopes (source : Bytes) (path : List String) (n : Node) : List Scope :=
  let name? :=
    if n.kind == .indexerDeclaration then some "this"
    else (n.field? "name").map fun c => Str.trim (c.text source)
  match name?, memberBody? n with
  | some name, some body =>
    let accessors :=
      if body.name == "accessor_list" then
        body.namedChildren.filterMap (accessorScope? source (path ++ [name]))
      else []
    memberScope source path name (memberKeyword n.kind) n body :: accessors
  | _, _ => []

/-- The scope that a namespace or type opens, unless it has no name or no body. -/
def containerScope? (source : Bytes) (path : List String) (n : Node) : Option Scope := do
  let nameNode ← n.field? "name"
  let name := Str.trim (nameNode.text source)
  let fileScoped := n.kind == .fileScopedNamespace
  if name == "" then none
  else
    let (openByte, closeByte, endLine) ←
      if fileScoped then some (nameNode.stop, source.length, source.lineStarts.length)
      else n.body?.map fun b => (b.start + 1, min (b.stop - 1) source.length, n.endLine source)
    some {
      name
      qualifiedName := Dotted.join (path ++ [name])
      kind := if n.kind.isNamespace then .nameSpace else .type
      keyword := keywordOf n.name
      fileScoped
      headerLine := nameNode.startLine source
      startLine := n.startLine source
      endLine
      openByte
      closeByte
      startByte := n.start }

/-- Nodes that are looked through without opening a scope. -/
def isTransparent : Kind → Bool
  | .error | .globalStatement | .other => true
  | _ => false

mutual

/-- The scopes at and below one node, and the path for the siblings after it. -/
def scopesAt (source : Bytes) (path : List String) : Node → List Scope × List String
  | .mk label children =>
    let n := Node.mk label children
    if !label.named then ([], path)
    else if n.kind.isMember || n.kind == .eventDeclaration then (memberScopes source path n, path)
    else if n.kind.isNamespace || n.kind.isType then
      match containerScope? source path n with
      | none => ([], path)
      | some scope =>
        let inner := path ++ [scope.name]
        let below :=
          match n.bodyIndex? with
          | some i => scopesBelowNth source inner i children
          | none => scopesAmong source inner children
        (scope :: below, if scope.fileScoped then inner else path)
    else if isTransparent n.kind then (scopesAmong source path children, path)
    else ([], path)

/-- The scopes at and below nodes that follow each other. -/
def scopesAmong (source : Bytes) (path : List String) : List Node → List Scope
  | [] => []
  | n :: rest =>
    let (here, path) := scopesAt source path n
    here ++ scopesAmong source path rest

/-- The scopes below the node at position `i`. -/
def scopesBelowNth (source : Bytes) (path : List String) : Nat → List Node → List Scope
  | _, [] => []
  | 0, .mk _ children :: _ => scopesAmong source path children
  | i + 1, _ :: rest => scopesBelowNth source path i rest

end

/-- The outline of a file with the given tree. -/
def ofTree (root : Node) (source : Bytes) : Outline where
  scopes := scopesAmong source [] root.children

end SymbolAtlas.Outline
