import SymbolAtlas.Text.Utf8
import SymbolAtlas.Text.Word
import SymbolAtlas.Tree.Kind

/-!
# Syntax trees

A node of a C# syntax tree, as a grammar delivers it: a kind, the field it fills in its parent, the
bytes it spans and its children. Tokens that carry no information of their own may be left out.
-/

namespace SymbolAtlas

/-- What a node says about itself. -/
structure Label where
  /-- The name of the node's kind in the grammar. -/
  name : String
  /-- The field the node fills in its parent, or nothing. -/
  field : String := ""
  start : Nat
  stop : Nat
  /-- A rule of the grammar, not a bare token. -/
  named : Bool := true
  /-- Inserted by the grammar to recover from an error. -/
  missing : Bool := false
  /-- Counts as an error by itself. -/
  faulty : Bool := false
  deriving DecidableEq, Repr, Inhabited

/-- A syntax tree. -/
inductive Node where
  | mk (label : Label) (children : List Node)
  deriving Repr

namespace Node

def label : Node → Label
  | .mk label _ => label

def children : Node → List Node
  | .mk _ children => children

/-- The name of the node's kind in the grammar. -/
def name (n : Node) : String := n.label.name

def kind (n : Node) : Kind := Kind.ofName n.label.name

def start (n : Node) : Nat := n.label.start

def stop (n : Node) : Nat := n.label.stop

/-- The tree of an empty text. -/
def empty : Node := .mk { name := "compilation_unit", start := 0, stop := 0 } []

instance : Inhabited Node := ⟨empty⟩

/-- The children that are rules of the grammar. -/
def namedChildren (n : Node) : List Node := n.children.filter (·.label.named)

/-- The position of the first child that fills a field. -/
def fieldIndex? (n : Node) (field : String) : Option Nat :=
  n.children.findIdx? (·.label.field == field)

/-- The first child that fills a field. -/
def field? (n : Node) (field : String) : Option Node :=
  n.children.find? (·.label.field == field)

/-- The position of the first named child whose kind has one of the names. -/
def namedIndex? (n : Node) (names : List String) : Option Nat :=
  n.children.findIdx? fun c => c.label.named && names.contains c.name

/-- The first named child whose kind has one of the names. -/
def named? (n : Node) (names : List String) : Option Node :=
  n.children.find? fun c => c.label.named && names.contains c.name

/-- The text a node spans. -/
def text (source : Bytes) (n : Node) : String := source.textAt n.start n.stop

/-- The text of the child that fills a field, trimmed, unless there is none. -/
def fieldText? (source : Bytes) (n : Node) (field : String) : Option String :=
  ((n.field? field).map fun c => Str.trim (c.text source)).filter (· != "")

/-- The one-based line a node begins on. -/
def startLine (source : Bytes) (n : Node) : Nat := source.rowAt n.start + 1

/-- The one-based line a node ends on. -/
def endLine (source : Bytes) (n : Node) : Nat := source.rowAt n.stop + 1

mutual

/-- The node, or one below it, stands for an error. The grammar's own library answers this for each
of its nodes. Here the answer is told from the labels, and taken to be the same: yes just where the
node or one below it is marked as faulty or missing. -/
def hasError : Node → Bool
  | .mk label children => label.faulty || label.missing || anyError children

/-- One of the nodes, or one below them, stands for an error. -/
def anyError : List Node → Bool
  | [] => false
  | n :: rest => n.hasError || anyError rest

end

/-- The keywords in front of a declaration, such as `public` and `static`. -/
def modifiers (source : Bytes) (n : Node) : List String :=
  (n.children.filter (·.name == "modifier")).map (·.text source)

/-- The position of the part that holds the members of a namespace or type. -/
def bodyIndex? (n : Node) : Option Nat :=
  (n.fieldIndex? "body").or (n.namedIndex? ["declaration_list", "enum_member_declaration_list"])

/-- The part that holds the members of a namespace or type. -/
def body? (n : Node) : Option Node :=
  (n.field? "body").or (n.named? ["declaration_list", "enum_member_declaration_list"])

/-- The header of a declaration: without attributes and body, spacing collapsed. -/
def signature? (source : Bytes) (n : Node) : Option String :=
  let attributes := n.children.filter (·.name == "attribute_list")
  let start := attributes.foldl (fun s a => max s a.stop) n.start
  let stop := max start (((n.field? "body").map Node.start).getD n.stop)
  let text := (source.textAt start stop).toList
  let head := Chars.before ['=', '>'] (Chars.before [Char.ofNat 0x7B] text)
  let text := Chars.trim (Chars.dropEndWhile (· == ';') (Chars.collapse head))
  if text.isEmpty then none else some (String.ofList text)

end Node

end SymbolAtlas
