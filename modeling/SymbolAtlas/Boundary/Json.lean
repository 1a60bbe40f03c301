import SymbolAtlas.Boundary.Plan
import SymbolAtlas.Json.Basic

/-!
# Plans as JSON
-/

namespace SymbolAtlas

/-- The word for a strategy in records. -/
def Strategy.word : Strategy → String
  | .declarations => "declarations"
  | .mixed => "mixed"
  | .tokenScan => "token_scan"

def Candidate.toJson (c : Candidate) : Json := .list [.nat c.offset, .int c.score]

def Plan.toJson : Plan → Json
  | .split boundaries strategy =>
    .record [
      ("plan", .string "split"),
      ("boundaries", .array .nat boundaries),
      ("strategy", .string strategy.word)]
  | .unchunked reason => .record [("plan", .string "unchunked"), ("reason", .string reason)]

end SymbolAtlas
