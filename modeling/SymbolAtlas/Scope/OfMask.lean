import SymbolAtlas.Mask.Basic
import SymbolAtlas.Scope.Basic
import SymbolAtlas.Text.Utf8

/-!
# The outline of a mask

Where there is no usable tree, namespaces and types are recognised in the mask by the word that
declares them:

    keyword  spacing  [ class or struct  spacing ]  name

with the keyword at the beginning of a word. Member bodies are not recorded. Scopes are named after
those that contain them.
-/

namespace SymbolAtlas

/-- A declaration recognised in masked text, with byte offsets. -/
structure Heading where
  keyword : String
  keywordStart : Nat
  name : String
  nameStart : Nat
  nameStop : Nat
  deriving DecidableEq, Repr

namespace Heading

/-- The words that declare namespaces and types. -/
def keywords : List String := ["namespace", "class", "struct", "interface", "enum", "record"]

/-- The first of `words` that the text begins with, and what follows it. -/
def word? (words : List String) (cs : List Char) : Option (String × List Char) :=
  (words.find? fun w => w.toList.isPrefixOf cs).map fun w => (w, cs.drop w.length)

/-- What follows the spacing that the text begins with, if it does. -/
def spacing? (cs : List Char) : Option (List Char) :=
  let rest := cs.dropWhile CharClass.isSpace
  if rest.length < cs.length then some rest else none

/-- The name that the text begins with. -/
def name? (cs : List Char) : Option (List Char) :=
  match cs with
  | c :: _ =>
    if CharClass.isNameStart c then some (cs.takeWhile fun c => CharClass.isWord c || c == '.')
    else none
  | [] => none

/-- The name after a keyword and spacing, and the text it begins in. A second keyword in front of
the name is skipped, unless it is the name. -/
def named? (cs : List Char) : Option (List Char × List Char) :=
  let skipped := do
    let (_, rest) ← word? ["class", "struct"] cs
    let rest ← spacing? rest
    let name ← name? rest
    some (name, rest)
  skipped.or ((name? cs).map fun name => (name, cs))

/-- The heading that the text begins with, and the number of characters it takes. -/
def at? (offset : Nat) (cs : List Char) : Option (Heading × Nat) := do
  let (keyword, rest) ← word? keywords cs
  let rest ← spacing? rest
  let (name, rest) ← named? rest
  let before := cs.take (cs.length - rest.length)
  let nameStart := offset + Utf8.width before
  some ({ keyword, keywordStart := offset, name := String.ofList name, nameStart
          nameStop := nameStart + Utf8.width name }, before.length + name.length)

/-- Collects headings onto `found`. `skip` characters still belong to the last of them, and `inWord`
tells whether the character before is part of a word. -/
def collect (found : List Heading) (offset skip : Nat) (inWord : Bool) : List Char → List Heading
  | [] => found.reverse
  | c :: rest =>
    let next := offset + c.utf8Size
    let word := CharClass.isWord c
    match skip with
    | skip + 1 => collect found next skip word rest
    | 0 =>
      match if inWord then none else at? offset (c :: rest) with
      | some (heading, size) => collect (heading :: found) next (size - 1) word rest
      | none => collect found next 0 word rest

/-- The headings in a masked text, in order. -/
def all (text : Bytes) : List Heading :=
  collect [] 0 0 false ((Utf8.decode? text).getD [])

end Heading

namespace Outline

/-- The scope under a heading, named only by itself. A heading that ends in a semicolon before any
brace opens a file-scoped namespace, or nothing. -/
def headingScope? (m : Mask) (h : Heading) : Option Scope :=
  let rest := m.shown.drop h.nameStop
  let brace := rest.findIdx? (· == Byte.openBrace)
  let semicolon := rest.findIdx? (· == Byte.semicolon)
  let kind : ScopeKind := if h.keyword == "namespace" then .nameSpace else .type
  let scope (fileScoped : Bool) (openByte closeByte endLine : Nat) : Scope :=
    { name := h.name, qualifiedName := "", kind, keyword := h.keyword, fileScoped
      headerLine := m.lineOf h.nameStart, startLine := m.lineOf h.keywordStart, endLine
      openByte, closeByte, startByte := h.keywordStart }
  let braceless :=
    if kind == .nameSpace then
      some (scope true h.nameStop m.shown.length m.lineStarts.length)
    else none
  let braced (b : Nat) :=
    let opening := h.nameStop + b
    let closing := (m.matchingBrace opening).getD (m.shown.length - 1)
    some (scope false (opening + 1) closing (m.lineOf closing))
  match brace, semicolon with
  | some b, some s => if s < b then braceless else braced b
  | some b, none => braced b
  | none, some _ => braceless
  | none, none => none

/-- Names each scope after the earlier ones that contain its opening. -/
def qualify (scopes : List Scope) : List Scope :=
  scopes.zipIdx.map fun (s, i) =>
    let around := (scopes.take i).filter fun p =>
      p.openByte ≤ s.openByte && s.openByte ≤ p.closeByte
    { s with qualifiedName := Dotted.join (around.map (·.name) ++ [s.name]) }

/-- The outline of a mask. -/
def ofMask (m : Mask) : Outline where
  scopes := qualify ((Heading.all m.shown).filterMap (headingScope? m))

end Outline

end SymbolAtlas
