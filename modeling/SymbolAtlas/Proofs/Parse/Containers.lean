import Mathlib.Order.Bounds.Basic
import Mathlib.Tactic
import SymbolAtlas.Proofs.Parse.Entry
import SymbolAtlas.Proofs.Record.Merging

/-!
# Cutting a file loses no namespace or type

A cut can separate the header of a namespace or type from its body, so that no chunk reports it, and
a chunk sees only some of its lines. The findings of a file that is read by chunks nevertheless hold
every namespace and type of its outline, on the lines it has there, and none of them twice
(`Findings.ofFile_reports_containers`). Nothing is asked of the trees of the chunks: the guarantee
rests on what happens after their findings are merged.

* Merged symbols have different keys, and correcting their lines changes no key
  (`Parse.key_correctSpan`).
* The scopes that are put back have names that no container had, each name once
  (`Parse.disjoint_missingScopes`, `Parse.nodup_missingScopes`).
* Both ways a container gets its lines, they are those of `Outline.spanOf?`, which reach from the
  first to the last of its declarations (`Outline.spans_of_spanOf?`).
-/

namespace SymbolAtlas

/-! ### The lines of a namespace or type -/

namespace Outline

/-- The lines from `first` to `last` are those of all declarations of a namespace or type taken
together. -/
structure Spans (o : Outline) (name : String) (first last : Nat) : Prop where
  first : IsLeast {n | ∃ d ∈ o.containers, d.qualifiedName = name ∧ d.startLine = n} first
  last : IsGreatest {n | ∃ d ∈ o.containers, d.qualifiedName = name ∧ d.endLine = n} last

theorem foldl_span (scopes : List Scope) (first last : Nat) :
    scopes.foldl (fun (first, last) t => (min first t.startLine, max last t.endLine))
        (first, last) =
      ((scopes.map Scope.startLine).foldl min first,
        (scopes.map Scope.endLine).foldl max last) := by
  induction scopes generalizing first last with
  | nil => rfl
  | cons t scopes ih => exact ih _ _

theorem spanOf?_eq_some_iff {o : Outline} {name : String} {first last : Nat} :
    o.spanOf? name = some (first, last) ↔
      ((o.containers.filter (·.qualifiedName == name)).map Scope.startLine).min? = some first ∧
        ((o.containers.filter (·.qualifiedName == name)).map Scope.endLine).max? = some last := by
  unfold spanOf?
  cases o.containers.filter (·.qualifiedName == name) with
  | nil => simp
  | cons s rest =>
    dsimp only
    rw [foldl_span, List.map_cons, List.map_cons, List.min?_cons', List.max?_cons']
    simp

theorem spans_of_spanOf? {o : Outline} {name : String} {first last : Nat}
    (h : o.spanOf? name = some (first, last)) : o.Spans name first last := by
  obtain ⟨hfirst, hlast⟩ := spanOf?_eq_some_iff.1 h
  rw [List.min?_eq_some_iff] at hfirst
  rw [List.max?_eq_some_iff] at hlast
  simp only [List.mem_map, List.mem_filter, beq_iff_eq, and_assoc] at hfirst hlast
  exact ⟨hfirst, hlast⟩

theorem exists_spanOf? {o : Outline} {scope : Scope} (h : scope ∈ o.containers) :
    ∃ first last, o.spanOf? scope.qualifiedName = some (first, last) := by
  have hmem : scope ∈ o.containers.filter (·.qualifiedName == scope.qualifiedName) :=
    List.mem_filter.2 ⟨h, beq_self_eq_true _⟩
  unfold spanOf?
  split
  · next hnil => simp [hnil] at hmem
  · exact ⟨_, _, rfl⟩

end Outline

namespace Parse

/-! ### Corrected lines -/

section

variable (outline : Outline) (s : Symbol)

theorem key_correctSpan : (correctSpan outline s).key = s.key := by
  unfold correctSpan
  split
  · split <;> rfl
  · rfl

theorem lines_correctSpan {first last : Nat} (hkind : s.kind.isContainer)
    (hspan : outline.spanOf? s.qualifiedName = some (first, last)) :
    (correctSpan outline s).startLine = first ∧ (correctSpan outline s).endLine = last := by
  rw [correctSpan, if_pos hkind, hspan]
  exact ⟨rfl, rfl⟩

end

/-! ### Scopes put back -/

/-- No name that is known already is put back. -/
theorem disjoint_missingScopes (known : List String) (scopes : List Scope) :
    known.Disjoint ((missingScopes known scopes).map Scope.qualifiedName) := by
  fun_induction missingScopes known scopes with
  | case1 => exact List.disjoint_nil_right _
  | case2 known s rest _ ih => exact ih
  | case3 known s rest hs ih =>
    rw [List.map_cons, List.disjoint_cons_right]
    exact ⟨by simpa using hs, (List.disjoint_cons_left.1 ih).2⟩

/-- No name is put back twice. -/
theorem nodup_missingScopes (known : List String) (scopes : List Scope) :
    ((missingScopes known scopes).map Scope.qualifiedName).Nodup := by
  fun_induction missingScopes known scopes with
  | case1 => exact List.nodup_nil
  | case2 known s rest _ ih => exact ih
  | case3 known s rest _ ih =>
    have hdisjoint := disjoint_missingScopes (s.qualifiedName :: known) rest
    exact List.nodup_cons.2 ⟨(List.disjoint_cons_left.1 hdisjoint).1, ih⟩

/-- Every name is known or put back. -/
theorem mem_known_or_mem_missingScopes (known : List String) {scopes : List Scope} {scope : Scope}
    (h : scope ∈ scopes) :
    scope.qualifiedName ∈ known ∨
      scope.qualifiedName ∈ (missingScopes known scopes).map Scope.qualifiedName := by
  fun_induction missingScopes known scopes with
  | case1 => cases h
  | case2 known s rest hs ih =>
    rcases List.mem_cons.1 h with rfl | hrest
    · exact .inl (List.contains_iff_mem.1 hs)
    · exact ih hrest
  | case3 known s rest _ ih =>
    rw [List.map_cons, List.mem_cons]
    rcases List.mem_cons.1 h with rfl | hrest
    · exact .inr (.inl rfl)
    · rcases ih hrest with hknown | hmissing
      · rcases List.mem_cons.1 hknown with hname | hknown
        · exact .inr (.inl hname)
        · exact .inl hknown
      · exact .inr (.inr hmissing)

section

variable (outline : Outline) (scope : Scope)

theorem isContainer_restoredSymbol : (restoredSymbol outline scope).kind.isContainer := by
  unfold restoredSymbol
  dsimp only
  split_ifs <;> rfl

theorem lines_restoredSymbol {first last : Nat}
    (hspan : outline.spanOf? scope.qualifiedName = some (first, last)) :
    (restoredSymbol outline scope).startLine = first ∧
      (restoredSymbol outline scope).endLine = last := by
  unfold restoredSymbol
  rw [hspan]
  exact ⟨rfl, rfl⟩

end

end Parse

/-- Among the symbols is every namespace and type of the outline, on the lines it has there, and no
symbol twice. -/
structure Outline.ReportedAmong (o : Outline) (symbols : List Symbol) : Prop where
  reported : ∀ scope ∈ o.containers,
    ∃ s ∈ symbols, s.kind.isContainer ∧ s.qualifiedName = scope.qualifiedName
  /-- Also where several kinds of container share a name. -/
  lines : ∀ scope ∈ o.containers, ∀ s ∈ symbols, s.kind.isContainer →
    s.qualifiedName = scope.qualifiedName →
      o.spanOf? scope.qualifiedName = some (s.startLine, s.endLine) ∧
        o.Spans scope.qualifiedName s.startLine s.endLine
  distinct : (symbols.map fun s => (s.qualifiedName, s.kind)).Nodup

namespace Parse

/-- Every container that the outline knows has its lines from there. -/
def SpansCorrected (outline : Outline) (symbols : List Symbol) : Prop :=
  ∀ s ∈ symbols, s.kind.isContainer → ∀ first last,
    outline.spanOf? s.qualifiedName = some (first, last) →
      s.startLine = first ∧ s.endLine = last

theorem spansCorrected_map_correctSpan (outline : Outline) (symbols : List Symbol) :
    SpansCorrected outline (symbols.map (correctSpan outline)) := by
  intro t ht hkind first last hspan
  obtain ⟨s, -, rfl⟩ := List.mem_map.1 ht
  have hkey := key_correctSpan outline s
  rw [Symbol.key, Symbol.key, Prod.mk.injEq] at hkey
  rw [hkey.2] at hkind
  rw [hkey.1] at hspan
  exact lines_correctSpan outline s hkind hspan

theorem spansCorrected_map_restoredSymbol (outline : Outline) (scopes : List Scope) :
    SpansCorrected outline (scopes.map (restoredSymbol outline)) := by
  intro t ht _ first last hspan
  obtain ⟨scope, -, rfl⟩ := List.mem_map.1 ht
  exact lines_restoredSymbol outline scope hspan

theorem map_key_correctSpan (outline : Outline) (symbols : List Symbol) :
    (symbols.map (correctSpan outline)).map Symbol.key = symbols.map Symbol.key := by
  rw [List.map_map]
  exact List.map_congr_left fun s _ => key_correctSpan outline s

/-- A symbol that is put back has a key of its own, as a container of its name would have been
known. -/
theorem nodup_key_restoreContainers {outline : Outline} {f : Findings}
    (h : (f.symbols.map Symbol.key).Nodup) :
    ((restoreContainers outline f).symbols.map Symbol.key).Nodup := by
  rw [restoreContainers, List.map_append]
  refine h.append ?_ ?_
  · refine .of_map Prod.fst ?_
    rw [List.map_map, List.map_map]
    exact nodup_missingScopes _ _
  · intro key hold hnew
    obtain ⟨s, hs, rfl⟩ := List.mem_map.1 hold
    rw [List.map_map, List.mem_map] at hnew
    obtain ⟨scope, hscope, hkey⟩ := hnew
    have hkind : s.kind.isContainer := by
      rw [← show _ = s.kind from congrArg Prod.snd hkey]
      exact isContainer_restoredSymbol outline scope
    refine disjoint_missingScopes _ _ ?_ (List.mem_map_of_mem hscope)
    rw [show scope.qualifiedName = s.qualifiedName from congrArg Prod.fst hkey]
    exact List.mem_map_of_mem (List.mem_filter.2 ⟨hs, hkind⟩)

theorem exists_mem_restoreContainers {outline : Outline} (f : Findings) {scope : Scope}
    (h : scope ∈ outline.containers) :
    ∃ s ∈ (restoreContainers outline f).symbols,
      s.kind.isContainer ∧ s.qualifiedName = scope.qualifiedName := by
  rcases mem_known_or_mem_missingScopes
    ((f.symbols.filter (·.kind.isContainer)).map (·.qualifiedName)) h with hknown | hmissing
  · obtain ⟨s, hs, hname⟩ := List.mem_map.1 hknown
    obtain ⟨hs, hkind⟩ := List.mem_filter.1 hs
    exact ⟨s, List.mem_append_left _ hs, hkind, hname⟩
  · obtain ⟨first, hfirst, hname⟩ := List.mem_map.1 hmissing
    exact ⟨restoredSymbol outline first, List.mem_append_right _ (List.mem_map_of_mem hfirst),
      isContainer_restoredSymbol outline first, hname⟩

theorem reportedAmong_restoreContainers {outline : Outline} {f : Findings}
    (hspans : SpansCorrected outline f.symbols) (hkeys : (f.symbols.map Symbol.key).Nodup) :
    outline.ReportedAmong (restoreContainers outline f).symbols where
  reported _ hscope := exists_mem_restoreContainers f hscope
  lines scope hscope s hs hkind hname := by
    obtain ⟨first, last, hspan⟩ := Outline.exists_spanOf? hscope
    have hlines : s.startLine = first ∧ s.endLine = last := by
      rw [← hname] at hspan
      rcases List.mem_append.1 hs with hold | hnew
      · exact hspans s hold hkind first last hspan
      · exact spansCorrected_map_restoredSymbol outline _ s hnew hkind first last hspan
    rw [hlines.1, hlines.2]
    exact ⟨hspan, Outline.spans_of_spanOf? hspan⟩
  distinct := nodup_key_restoreContainers hkeys

/-- Whatever the chunks report, the findings put together from them hold the whole outline. -/
theorem reportedAmong_chunked (settings : Settings) (path : Path) (source : Bytes)
    (tree : Option Node) (outline : Outline) (forest : Forest) (chunks : List Chunk) :
    outline.ReportedAmong (chunked settings path source tree outline forest chunks).symbols := by
  refine reportedAmong_restoreContainers (spansCorrected_map_correctSpan _ _) ?_
  rw [map_key_correctSpan, Findings.symbols_merge]
  exact Keyed.nodup_merge Symbol.keepsKey_join _

/-! ### Files read by chunks -/

/-- A file is read by these chunks: it is accepted, too large to be read whole, and its plan cuts it
into them. -/
structure IsReadBy (settings : Settings) (path : Path) (source : Bytes) (parsed : Parsed)
    (chunks : List Chunk) : Prop where
  large : settings.chunking.maxChunkBytes < source.length
  planned : ∃ boundaries strategy,
    plan settings path source parsed = .ok { plan := .split boundaries strategy, chunks }

section

variable {settings : Settings} {path : Path} {source : Bytes} {chunks : List Chunk}

/-- The file has passed all checks, and the chunks come from the boundaries of its plan. -/
theorem IsReadBy.cut {parsed : Parsed} (h : IsReadBy settings path source parsed chunks) :
    check settings path source = .ok () ∧ settings.chunking.enabled = true ∧
      ∃ tree, parsed.tree? path = .ok tree ∧ ∃ boundaries strategy,
        (Cutter.ofMask settings.chunking (Mask.ofSource source)).plan tree =
            .split boundaries strategy ∧
          chunks = Chunk.split settings.chunking source boundaries
            (outlineOf source (Mask.ofSource source) tree) (Mask.ofSource source) := by
  obtain ⟨boundaries, strategy, hplan⟩ := h.planned
  obtain ⟨hcheck, ⟨-, hnone⟩ | ⟨henabled, tree, htree, hsplit, hchunks⟩⟩ := plan_cases hplan
  · cases hnone
  · exact ⟨hcheck, henabled, tree, htree, boundaries, strategy, hsplit.symm, hchunks⟩

theorem IsReadBy.ofFile_eq {forest : Forest}
    (h : IsReadBy settings path source forest.whole chunks) :
    ∃ tree, forest.whole.tree? path = .ok tree ∧
      Findings.ofFile settings path source forest =
        .ok (finish settings source (chunked settings path source tree
          (outlineOf source (Mask.ofSource source) tree) forest chunks)) := by
  obtain ⟨hcheck, henabled, tree, htree, boundaries, strategy, hsplit, rfl⟩ := h.cut
  have hlarge : ¬ source.length ≤ settings.chunking.maxChunkBytes := Nat.not_le.2 h.large
  refine ⟨tree, htree, ?_⟩
  rw [ofFile_of_accepted hcheck, htree]
  simp [extract, henabled, hlarge, hsplit, chunksOf, Except.map]

/-- A file with a tree is put together under the outline of that tree. -/
theorem IsReadBy.ofFile_eq_of_tree {forest : Forest} {root : Node}
    (h : IsReadBy settings path source forest.whole chunks) (hwhole : forest.whole = .tree root) :
    Findings.ofFile settings path source forest =
      .ok (finish settings source (chunked settings path source (some root)
        (Outline.ofTree root source) forest chunks)) := by
  obtain ⟨tree, htree, hfile⟩ := h.ofFile_eq
  rw [hwhole] at htree
  obtain rfl := Except.ok.inj htree
  exact hfile

end

theorem symbols_finish {settings : Settings} (h : settings.extraction.includePrivate = true)
    (source : Bytes) (f : Findings) : (finish settings source f).symbols = f.symbols := by
  rw [finish, if_pos h]

end Parse

/-- The findings of a file that is read by chunks, private symbols included, hold every namespace
and type of the file. -/
theorem Findings.ofFile_reports_containers {settings : Settings} {path : Path} {source : Bytes}
    {chunks : List Chunk} (forest : Forest) {root : Node} (hwhole : forest.whole = .tree root)
    (hread : Parse.IsReadBy settings path source forest.whole chunks)
    (hprivate : settings.extraction.includePrivate = true) :
    ∃ f, ofFile settings path source forest = .ok f ∧
      (Outline.ofTree root source).ReportedAmong f.symbols := by
  refine ⟨_, hread.ofFile_eq_of_tree hwhole, ?_⟩
  rw [Parse.symbols_finish hprivate]
  exact Parse.reportedAmong_chunked settings path source (some root) _ forest chunks

/-- A class declared in two parts, between which the file is cut. -/
def classInParts : Bytes :=
  .ofString "partial class A\n\x7b\n\x7d\npartial class A\n\x7b\n\x7d\n"

/-- The tree of `classInParts`. -/
def classInPartsTree : Node :=
  .mk { name := "compilation_unit", start := 0, stop := 40 } [part 0, part 20]
where
  /-- The tree of the part that begins at `start`. -/
  part (start : Nat) : Node :=
    .mk { name := "class_declaration", start, stop := start + 19 } [
      .mk { name := "modifier", start, stop := start + 7 } [],
      .mk { name := "identifier", field := "name", start := start + 14, stop := start + 15 } [],
      .mk { name := "declaration_list", field := "body", start := start + 16, stop := start + 19 }
        []]

/-- No chunk of `classInParts` reports the class, as their trees are missing. -/
theorem Findings.ofFile_reports_containers_classInParts :
    ∃ f, ofFile { chunking := { maxChunkBytes := 20 } } ⟨"A.cs"⟩ classInParts
        { whole := classInPartsTree } = .ok f ∧
      ∃ s ∈ f.symbols, s.qualifiedName = "A" ∧ s.kind.isContainer ∧
        s.startLine = 1 ∧ s.endLine = 6 := by
  have hread : Parse.IsReadBy { chunking := { maxChunkBytes := 20 } } ⟨"A.cs"⟩ classInParts
      classInPartsTree
      (Chunk.split { maxChunkBytes := 20 } classInParts [20] (.ofTree classInPartsTree classInParts)
        (.ofSource classInParts)) :=
    ⟨by decide +kernel, [20], .declarations, by decide +kernel⟩
  have houtline : ∃ scope ∈ (Outline.ofTree classInPartsTree classInParts).containers,
      scope.qualifiedName = "A" ∧
        (Outline.ofTree classInPartsTree classInParts).spanOf? "A" = some (1, 6) := by
    decide +kernel
  obtain ⟨f, hf, hreported⟩ := ofFile_reports_containers { whole := classInPartsTree } rfl hread rfl
  obtain ⟨scope, hscope, hname, hspan⟩ := houtline
  obtain ⟨s, hs, hkind, hsname⟩ := hreported.reported scope hscope
  have hlines := (hreported.lines scope hscope s hs hkind hsname).1
  rw [hname, hspan, Option.some.injEq, Prod.mk.injEq] at hlines
  exact ⟨f, hf, s, hs, hsname.trans hname, hkind, hlines.1.symm, hlines.2.symm⟩

end SymbolAtlas
