/-!
# Dotted names

Qualified names are segments joined by dots.
-/

namespace SymbolAtlas.Dotted

/-- The segments joined by dots. -/
def join (segments : List String) : String := ".".intercalate segments

/-- The characters after the last dot. -/
def lastSegmentChars (cs : List Char) : List Char :=
  (cs.reverse.takeWhile (· != '.')).reverse

/-- The segment after the last dot. -/
def lastSegment (name : String) : String :=
  String.ofList (lastSegmentChars name.toList)

end SymbolAtlas.Dotted
