import SymbolAtlas.Text.CharTable

/-!
# Characters, words and spacing

Character classes by Unicode property, and the operations on text that depend on them: trimming,
collapsing runs of spacing, shortening. All of them go through the list of characters, so that laws
about them are laws about lists.
-/

namespace SymbolAtlas

namespace CharClass

/-- Unicode white space. -/
def isSpace (c : Char) : Bool := CharTable.inRanges CharTable.whiteSpace c.toNat

/-- An alphabetic character. -/
def isAlphabetic (c : Char) : Bool := CharTable.inRanges CharTable.alphabetic c.toNat

/-- A character of one of the number categories. -/
def isNumeric (c : Char) : Bool := CharTable.inRanges CharTable.numeric c.toNat

/-- An alphabetic or numeric character. -/
def isAlphanumeric (c : Char) : Bool := isAlphabetic c || isNumeric c

/-- A character of a word, as word boundaries are drawn. -/
def isWord (c : Char) : Bool := isAlphabetic c || CharTable.inRanges CharTable.wordExtra c.toNat

/-- An uppercase character. -/
def isUpper (c : Char) : Bool := CharTable.inStripes CharTable.uppercase c.toNat

/-- A lowercase character. -/
def isLower (c : Char) : Bool := CharTable.inStripes CharTable.lowercase c.toNat

/-- An ASCII letter or the underscore, with which names begin in patterns. -/
def isNameStart (c : Char) : Bool := c.isAlpha || c == '_'

end CharClass

namespace Chars

/-- The characters without spacing at the front. -/
def trimStart (cs : List Char) : List Char := cs.dropWhile CharClass.isSpace

/-- The characters without those at the end that satisfy `p`. -/
def dropEndWhile (p : Char → Bool) (cs : List Char) : List Char := (cs.reverse.dropWhile p).reverse

/-- The characters without spacing at the end. -/
def trimEnd (cs : List Char) : List Char := dropEndWhile CharClass.isSpace cs

/-- The characters without spacing at either end. -/
def trim (cs : List Char) : List Char := trimEnd (trimStart cs)

/-- Adds a character to the words read so far, the last of which is still open when `inside`. -/
def wordsStep : List (List Char) × Bool → Char → List (List Char) × Bool
  | (words, inside), c =>
    if CharClass.isSpace c then (words, false)
    else
      match inside, words with
      | true, word :: older => ((c :: word) :: older, true)
      | _, _ => ([c] :: words, true)

/-- The longest runs without spacing, in order. -/
def words (cs : List Char) : List (List Char) :=
  ((cs.foldl wordsStep ([], false)).1.map List.reverse).reverse

/-- The words with one space between them. -/
def collapse (cs : List Char) : List Char :=
  [' '].intercalate (words cs)

/-- The characters before the first occurrence of `pattern`, and those after it. -/
def splitAt? (pattern : List Char) : List Char → Option (List Char × List Char)
  | [] => if pattern.isEmpty then some ([], []) else none
  | c :: rest =>
    if pattern.isPrefixOf (c :: rest) then some ([], (c :: rest).drop pattern.length)
    else (splitAt? pattern rest).map fun (before, after) => (c :: before, after)

/-- The characters before the first occurrence of `pattern`, or all of them. -/
def before (pattern cs : List Char) : List Char :=
  match splitAt? pattern cs with
  | some (head, _) => head
  | none => cs

/-- The characters with `pattern` taken off the end as often as it stands there. -/
def dropEndPattern (pattern cs : List Char) : List Char :=
  (go pattern.reverse (cs.length + 1) cs.reverse).reverse
where
  /-- Takes `pattern` off the front, at most `fuel` times. -/
  go (pattern : List Char) : Nat → List Char → List Char
    | 0, cs => cs
    | fuel + 1, cs =>
      if !pattern.isEmpty && pattern.isPrefixOf cs then go pattern fuel (cs.drop pattern.length)
      else cs

end Chars

namespace Str

/-- The text without spacing at either end. -/
def trim (s : String) : String := String.ofList (Chars.trim s.toList)

/-- The words of the text with one space between them. -/
def collapse (s : String) : String := String.ofList (Chars.collapse s.toList)

/-- The text, collapsed, and cut after `most` characters with an ellipsis in place of the rest. -/
def clip (s : String) (most : Nat) : String :=
  let collapsed := Chars.collapse s.toList
  String.ofList (if collapsed.length ≤ most then collapsed else collapsed.take most ++ ['…'])

/-- The text ends in `ending`. -/
def endsWith (s ending : String) : Bool := ending.toList.isSuffixOf s.toList

/-- The text begins with `beginning`. -/
def startsWith (s beginning : String) : Bool := beginning.toList.isPrefixOf s.toList

/-- The text contains `part`. -/
def contains (s part : String) : Bool := (Chars.splitAt? part.toList s.toList).isSome

/-- The text with ASCII letters in lower case. -/
def lower (s : String) : String := String.ofList (s.toList.map Char.toLower)

end Str

end SymbolAtlas
