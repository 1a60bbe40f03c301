import SymbolAtlas.Numeric.Binary

/-!
# Settings

What can be tuned: how large files are cut (`Chunking`), what is extracted from them (`Extraction`)
and how the types of call receivers are judged (`Binding`).
-/

namespace SymbolAtlas.Settings

/-- How files too large for a single parse are cut. -/
structure Chunking where
  /-- Files above this many bytes are parsed in chunks. -/
  maxChunkBytes : Nat := 28000
  /-- Lines each chunk repeats from the end of the one before. -/
  overlapLines : Nat := 100
  enabled : Bool := true
  /-- Lower edge of the window searched for a cut, as a share of `maxChunkBytes`. -/
  searchFloor : Double := .ofDecimal false 7 (-1)
  /-- Deepest brace nesting at which a line end may be a cut. -/
  maxDepth : Nat := 3
  /-- Share of the file taken by oversized declarations above which it is not cut at all. -/
  oversizedRatio : Double := .ofDecimal false 8 (-1)
  deriving DecidableEq, Repr

/-- The size that chunks are held to: at least one byte. -/
def Chunking.limit (c : Chunking) : Nat := max 1 c.maxChunkBytes

/-- What is extracted. -/
structure Extraction where
  /-- Private symbols are reported. -/
  includePrivate : Bool := true
  /-- Files above this many bytes are refused. -/
  maxFileSize : Nat := 5000000
  /-- Calls are also sought in the text of member bodies. -/
  textPass : Bool := true
  deriving DecidableEq, Repr

/-- How far the type found for a receiver is trusted. -/
structure Binding where
  /-- A call on `IFoo` is taken for a call on `Foo`. -/
  stripInterface : Bool := true
  /-- The letter in front of the names of interfaces. -/
  interfaceLetter : Char := 'I'
  field : Single := .ofHundredths 95
  localVariable : Single := .ofHundredths 90
  inferred : Single := .ofHundredths 85
  parameter : Single := .ofHundredths 90
  property : Single := .ofHundredths 85
  /-- Calls on a receiver of no known type. -/
  unresolved : Single := .ofHundredths 50
  /-- Calls found in the text only. -/
  textual : Single := .ofHundredths 40
  deriving DecidableEq, Repr

end SymbolAtlas.Settings

namespace SymbolAtlas

/-- All settings. -/
structure Settings where
  chunking : Settings.Chunking := {}
  extraction : Settings.Extraction := {}
  binding : Settings.Binding := {}
  deriving DecidableEq, Repr

end SymbolAtlas
