import SymbolAtlas.Text.Word

/-!
# Type names

The names of types as they are written, reduced to what a declaration is looked up by.
-/

namespace SymbolAtlas.TypeName

/-- The characters of a type name without type arguments, nullability marks and array brackets. -/
def baseChars (cs : List Char) : List Char :=
  let plain := Chars.before ['<'] (Chars.trim cs)
  Chars.trim (Chars.dropEndPattern ['[', ']'] (Chars.dropEndWhile (· == '?') plain))

/-- A type name without type arguments, nullability marks and array brackets. -/
def base (s : String) : String := String.ofList (baseChars s.toList)

/-- The name of what an interface stands for: the name without its first letter, if that is `letter`
and is followed by an uppercase and, further on, a lowercase letter. -/
def withoutInterfaceLetter (letter : Char) (s : String) : String :=
  match s.toList with
  | first :: second :: rest =>
    if first == letter && CharClass.isUpper second && (second :: rest).any CharClass.isLower then
      String.ofList (second :: rest)
    else s
  | _ => s

/-- A plain identifier, at signs in front not counted. -/
def isIdentifier (s : String) : Bool :=
  match s.toList.dropWhile (· == '@') with
  | first :: rest =>
    (CharClass.isAlphabetic first || first == '_')
      && rest.all fun c => CharClass.isAlphanumeric c || c == '_'
  | [] => false

end SymbolAtlas.TypeName
