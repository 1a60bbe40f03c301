import Mathlib.Tactic
import SymbolAtlas.Parse.Basic

/-!
# The two ways into a file

`Parse.plan` says how a file would be cut, and `Findings.ofFile` reads it. Both check the file
first. The plan then returns at once where nothing is ever cut; reading always asks for a parser.
The lemmas here tell what both do, case by case, and `Parse.plan_cases` what can be behind a plan.
-/

namespace SymbolAtlas

/-- There is a parser for the text. A grammar offers one, unless it was built for another version of
the parsing library than the one in use. -/
def Parsed.HasParser : Parsed → Prop
  | .noParser _ => False
  | .noTree | .tree _ => True

theorem Parsed.HasParser.exists_tree? {parsed : Parsed} (h : parsed.HasParser) (path : Path) :
    ∃ tree, parsed.tree? path = .ok tree := by
  cases parsed with
  | noParser reason => cases h
  | noTree => exact ⟨none, rfl⟩
  | tree root => exact ⟨some root, rfl⟩

namespace Parse

variable {settings : Settings} {path : Path} {source : Bytes}

theorem plan_of_refused {failure : Failure} (h : check settings path source = .error failure)
    (parsed : Parsed) : plan settings path source parsed = .error failure := by
  rw [plan, h]
  rfl

theorem ofFile_of_refused {failure : Failure} (h : check settings path source = .error failure)
    (forest : Forest) : Findings.ofFile settings path source forest = .error failure := by
  rw [Findings.ofFile, h]
  rfl

theorem plan_of_disabled (h : check settings path source = .ok ())
    (hdisabled : settings.chunking.enabled = false) (parsed : Parsed) :
    plan settings path source parsed =
      .ok { plan := .unchunked "chunking disabled", chunks := [] } := by
  rw [plan, h, hdisabled]
  rfl

theorem plan_of_enabled (h : check settings path source = .ok ())
    (henabled : settings.chunking.enabled = true) (parsed : Parsed) :
    plan settings path source parsed = (parsed.tree? path).map fun tree =>
      let plan := (Cutter.ofMask settings.chunking (.ofSource source)).plan tree
      { plan, chunks := chunksOf settings source (.ofSource source) tree plan } := by
  rw [plan, h, henabled]
  cases parsed <;> rfl

theorem ofFile_of_accepted (h : check settings path source = .ok ()) (forest : Forest) :
    Findings.ofFile settings path source forest = (forest.whole.tree? path).map fun tree =>
      finish settings source (extract settings path source tree forest) := by
  rw [Findings.ofFile, h]
  cases forest.whole <;> rfl

/-- A file with a plan has passed the checks. Either nothing is ever cut, or the plan follows from
the tree of the file. -/
theorem plan_cases {parsed : Parsed} {p : ChunkPlan}
    (h : plan settings path source parsed = .ok p) :
    check settings path source = .ok () ∧
      ((settings.chunking.enabled = false ∧
          p = { plan := .unchunked "chunking disabled", chunks := [] }) ∨
        (settings.chunking.enabled = true ∧ ∃ tree, parsed.tree? path = .ok tree ∧
          p.plan = (Cutter.ofMask settings.chunking (.ofSource source)).plan tree ∧
          p.chunks = chunksOf settings source (.ofSource source) tree p.plan)) := by
  cases hcheck : check settings path source with
  | error failure =>
    rw [plan_of_refused hcheck] at h
    cases h
  | ok =>
    refine ⟨rfl, ?_⟩
    cases henabled : settings.chunking.enabled with
    | false =>
      rw [plan_of_disabled hcheck henabled] at h
      exact .inl ⟨rfl, (Except.ok.inj h).symm⟩
    | true =>
      rw [plan_of_enabled hcheck henabled] at h
      cases htree : parsed.tree? path with
      | error failure =>
        rw [htree] at h
        cases h
      | ok tree =>
        rw [htree] at h
        obtain rfl := Except.ok.inj h
        exact .inr ⟨rfl, tree, rfl, rfl, rfl⟩

end Parse

end SymbolAtlas
