import Mathlib.Tactic
import SymbolAtlas.Proofs.Extract.Agreement
import SymbolAtlas.Proofs.Parse.Containers
import SymbolAtlas.Proofs.Record.Combined

/-!
# The lines of a namespace or type, with and without chunks

Of a file that is cut into chunks, the lines of namespaces and types are those of its outline. Of a
file that is read whole, they are those of the nodes that the walk has come by. Both ways start on
the same line, and end on the same line too if no declaration is a file-scoped namespace
(`Findings.ofFile_sameLines`). For a file-scoped namespace they differ: the outline counts all that
follows as part of it, the walk its heading only (`Findings.ofFile_fileScoped`).

Two more things are asked of a name. The outline knows no kinds of type apart when it is asked for
the lines of a name, so all declarations under the name are of one kind. And the outline has all of
them: it leaves out types without a body.
-/

namespace SymbolAtlas

/-! ### How far a declaration reaches -/

/-- An entry with the last line of what is declared. -/
structure Extent where
  entry : Entry
  endLine : Nat
  fileScoped : Bool
  deriving DecidableEq, Repr

/-- How far a namespace or type reaches. -/
def Scope.extent (s : Scope) : Extent where
  entry := s.entry
  endLine := s.endLine
  fileScoped := s.fileScoped

theorem Site.endLine_of_mem_declarations {env : WalkEnv} {site : Site} {d : Declaration}
    (h : d ∈ site.declarations env) : d.endLine = site.node.endLine env.source := by
  unfold declarations Surroundings.report at h
  split at h
  · cases h
  · obtain ⟨name, -, rfl⟩ := List.mem_map.1 h
    rfl

namespace View

/-- How far the declarations reach: a file-scoped namespace to the end of the file, all others as
far as reported. -/
def extents (env : WalkEnv) : View (Declaration × Bool) Extent where
  ofScope := Scope.extent
  records site := (site.declarations env).map (·, site.node.kind == .fileScopedNamespace)
  ofRecord r :=
    { entry := r.1.entry
      endLine := if r.2 then env.source.lineStarts.length else r.1.endLine
      fileScoped := r.2 }

theorem agrees_extents {env : WalkEnv} (hsize : env.options.preludeSize = 0) :
    (extents env).Agrees env := by
  intro n above s hkind hs
  have hentries := Site.entries_of_opensContainer hsize hkind hs
  rw [Site.entries, List.flatMap_singleton, List.map_eq_singleton_iff] at hentries
  obtain ⟨d, hd, hentry⟩ := hentries
  have hend : d.endLine = n.endLine env.source :=
    Site.endLine_of_mem_declarations (hd ▸ List.mem_singleton_self d)
  simp [extents, hd, hentry, Scope.extent, hs.fileScoped, hs.endLine, hend]

end View

/-! ### What is declared under a name -/

/-- A namespace or type of this name. -/
def Entry.isContainerNamed (name : String) (e : Entry) : Bool :=
  e.kind.isContainer && e.qualifiedName == name

theorem Scope.isContainerNamed_entry (name : String) (s : Scope) :
    s.entry.isContainerNamed name = (s.qualifiedName == name) := by
  have hkind : s.entry.kind.isContainer = true := by
    unfold entry
    dsimp only
    split_ifs <;> rfl
  rw [Entry.isContainerNamed, hkind, Bool.true_and]
  rfl

namespace Outline

/-- The outline knows what is declared under a name: something, of one kind, and nothing less than
is among the symbols. -/
structure Knows (o : Outline) (symbols : List Symbol) (name : String) : Prop where
  declared : ∃ scope ∈ o.containers, scope.qualifiedName = name
  kinds : ∀ s ∈ o.containers, ∀ t ∈ o.containers, s.qualifiedName = name →
    t.qualifiedName = name → s.entry.kind = t.entry.kind
  complete : symbols.countP (·.entry.isContainerNamed name) ≤
    o.containers.countP (·.qualifiedName == name)

section

variable {source : Bytes} {options : ExtractOptions} {root : Node} {name : String}

/-- All that a walk reports, each with whether it is a file-scoped namespace. -/
def reports (source : Bytes) (options : ExtractOptions) (root : Node) : List (Declaration × Bool) :=
  (Site.reached (Walk.envOf source options root) root).flatMap
    (View.extents (Walk.envOf source options root)).records

theorem map_fst_reports (hunit : root.IsUnit) (htop : root.FileScopedOnTop) :
    (reports source options root).map (·.1) =
      (Findings.ofTree source options root).symbols.map Symbol.declaration := by
  rw [Walk.map_declaration_symbols source options hunit htop, reports, List.map_flatMap]
  simp [View.extents, Function.comp_def]

/-- What is told of the symbols under a name is told of the reports. -/
theorem map_symbols_eq (source : Bytes) (options : ExtractOptions) (name : String)
    (hunit : root.IsUnit) (htop : root.FileScopedOnTop) {β : Type} (f : Declaration → β) :
    ((Findings.ofTree source options root).symbols.filter
        (·.entry.isContainerNamed name)).map (fun s => f s.declaration) =
      ((reports source options root).filter
        (·.1.entry.isContainerNamed name)).map (fun r => f r.1) := by
  calc ((Findings.ofTree source options root).symbols.filter
        (·.entry.isContainerNamed name)).map (fun s => f s.declaration)
      = (((Findings.ofTree source options root).symbols.map Symbol.declaration).filter
          (·.entry.isContainerNamed name)).map f := by
        rw [List.filter_map, List.map_map]
        rfl
    _ = _ := by
        rw [← map_fst_reports hunit htop, List.filter_map, List.map_map]
        rfl

variable (h : (ofTree root source).Knows (Findings.ofTree source options root).symbols name)
  (hunit : root.IsUnit) (htop : root.FileScopedOnTop) (htypes : root.NoNamespaceInType)
  (hgrammar : root.Grammatical) (hsize : options.preludeSize = 0)

include h hunit htop htypes hgrammar hsize

/-- Under a name that the outline knows, the walk reports just what the outline has. -/
theorem Knows.extents_eq :
    ((ofTree root source).containers.filter (·.qualifiedName == name)).map Scope.extent =
      ((reports source options root).filter (·.1.entry.isContainerNamed name)).map
        (View.extents (Walk.envOf source options root)).ofRecord := by
  have hagrees : (View.extents (Walk.envOf source options root)).Agrees
      (Walk.envOf source options root) := View.agrees_extents hsize
  have hall := (sublist_ofTree hagrees hunit htop htypes hgrammar).filter
    (·.entry.isContainerNamed name)
  have hscopes : ((View.extents (Walk.envOf source options root)).ofScopes
        (ofTree root source).scopes).filter (·.entry.isContainerNamed name) =
      ((ofTree root source).containers.filter (·.qualifiedName == name)).map Scope.extent := by
    rw [View.ofScopes, List.filter_map]
    refine congrArg _ (List.filter_congr fun s _ => ?_)
    exact s.isContainerNamed_entry name
  have hsites : ((View.extents (Walk.envOf source options root)).ofSites
        (Site.reached (Walk.envOf source options root) root)).filter
          (·.entry.isContainerNamed name) =
      ((reports source options root).filter (·.1.entry.isContainerNamed name)).map
        (View.extents (Walk.envOf source options root)).ofRecord := by
    rw [View.ofSites, List.filter_map]
    rfl
  have hsublist := hscopes ▸ hsites ▸ hall
  -- The outline has no fewer declarations than the walk, so it has all of them.
  refine hsublist.eq_of_length_le ?_
  have hlength := congrArg List.length (map_symbols_eq source options name hunit htop id)
  simp only [List.length_map, ← List.countP_eq_length_filter] at hlength ⊢
  rw [← hlength]
  exact h.complete

theorem Knows.entries_eq :
    ((ofTree root source).containers.filter (·.qualifiedName == name)).map Scope.entry =
      ((Findings.ofTree source options root).symbols.filter
        (·.entry.isContainerNamed name)).map Symbol.entry := by
  have hextents := congrArg (List.map Extent.entry) (h.extents_eq hunit htop htypes hgrammar hsize)
  rw [List.map_map, List.map_map] at hextents
  exact hextents.trans (map_symbols_eq source options name hunit htop Declaration.entry).symm

/-- Symbols under a name that the outline knows have one kind. -/
theorem Knows.kind_eq {s t : Symbol}
    (hs : s ∈ (Findings.ofTree source options root).symbols)
    (ht : t ∈ (Findings.ofTree source options root).symbols)
    (hsname : s.entry.isContainerNamed name) (htname : t.entry.isContainerNamed name) :
    s.kind = t.kind := by
  have hentries := h.entries_eq hunit htop htypes hgrammar hsize
  have hscope {u : Symbol} (hu : u ∈ (Findings.ofTree source options root).symbols)
      (huname : u.entry.isContainerNamed name) :
      ∃ scope ∈ (ofTree root source).containers, scope.qualifiedName = name ∧
        scope.entry = u.entry := by
    have hmem : u.entry ∈ ((ofTree root source).containers.filter
        (·.qualifiedName == name)).map Scope.entry := by
      rw [hentries]
      exact List.mem_map_of_mem (List.mem_filter.2 ⟨hu, huname⟩)
    obtain ⟨scope, hscope, hentry⟩ := List.mem_map.1 hmem
    obtain ⟨hscope, hname⟩ := List.mem_filter.1 hscope
    exact ⟨scope, hscope, beq_iff_eq.1 hname, hentry⟩
  obtain ⟨a, ha, haname, hs⟩ := hscope hs hsname
  obtain ⟨b, hb, hbname, ht⟩ := hscope ht htname
  calc s.kind = a.entry.kind := by rw [hs]; rfl
    _ = b.entry.kind := h.kinds a ha b hb haname hbname
    _ = t.kind := by rw [ht]; rfl

/-- The first lines of what is declared under the name. -/
theorem Knows.startLines_eq :
    ((ofTree root source).containers.filter (·.qualifiedName == name)).map Scope.startLine =
      ((Findings.ofTree source options root).symbols.filter
        (·.entry.isContainerNamed name)).map Symbol.startLine := by
  have hentries := congrArg (List.map Entry.startLine)
    (h.entries_eq hunit htop htypes hgrammar hsize)
  rw [List.map_map, List.map_map] at hentries
  exact hentries

/-- The last lines of what is declared under the name, if no declaration reaches to the end of the
file without a brace. -/
theorem Knows.endLines_eq
    (hblocks : ∀ scope ∈ (ofTree root source).containers, scope.qualifiedName = name →
      scope.fileScoped = false) :
    ((ofTree root source).containers.filter (·.qualifiedName == name)).map Scope.endLine =
      ((Findings.ofTree source options root).symbols.filter
        (·.entry.isContainerNamed name)).map Symbol.endLine := by
  have hextents := h.extents_eq hunit htop htypes hgrammar hsize
  have hblock : ∀ r ∈ (reports source options root).filter (·.1.entry.isContainerNamed name),
      r.2 = false := by
    intro r hr
    have hmem := List.mem_map_of_mem (f := (View.extents (Walk.envOf source options root)).ofRecord)
      hr
    rw [← hextents] at hmem
    obtain ⟨scope, hscope, hextent⟩ := List.mem_map.1 hmem
    obtain ⟨hscope, hname⟩ := List.mem_filter.1 hscope
    calc r.2 = scope.extent.fileScoped := by rw [hextent]; rfl
      _ = false := hblocks scope hscope (beq_iff_eq.1 hname)
  have hlines := congrArg (List.map Extent.endLine) hextents
  rw [List.map_map, List.map_map] at hlines
  refine hlines.trans (Eq.trans ?_ (map_symbols_eq source options name hunit htop
    Declaration.endLine).symm)
  refine List.map_congr_left fun r hr => ?_
  simp [View.extents, hblock r hr]

end

end Outline

/-! ### Two ways to read a file -/

/-- The settings under which a file is read whole. -/
def Settings.unchunked (settings : Settings) : Settings :=
  { settings with chunking := { settings.chunking with enabled := false } }

/-- The findings report a namespace or type of this name, and on these lines only. -/
structure Findings.ReportsOn (f : Findings) (name : String) (first last : Nat) : Prop where
  reported : ∃ s ∈ f.symbols, s.entry.isContainerNamed name
  lines : ∀ s ∈ f.symbols, s.entry.isContainerNamed name → s.startLine = first ∧ s.endLine = last

theorem Symbol.isContainerNamed_iff {name : String} {s : Symbol} :
    s.entry.isContainerNamed name ↔ s.kind.isContainer ∧ s.qualifiedName = name := by
  rw [Entry.isContainerNamed, Bool.and_eq_true, beq_iff_eq]
  rfl

theorem Outline.ReportedAmong.reportsOn {o : Outline} {f : Findings} {scope : Scope}
    {first last : Nat} (h : o.ReportedAmong f.symbols) (hscope : scope ∈ o.containers)
    (hspan : o.spanOf? scope.qualifiedName = some (first, last)) :
    f.ReportsOn scope.qualifiedName first last where
  reported := by
    obtain ⟨s, hs, hkind, hname⟩ := h.reported scope hscope
    exact ⟨s, hs, Symbol.isContainerNamed_iff.2 ⟨hkind, hname⟩⟩
  lines s hs hnamed := by
    obtain ⟨hkind, hname⟩ := Symbol.isContainerNamed_iff.1 hnamed
    have hlines := (h.lines scope hscope s hs hkind hname).1
    rw [hspan, Option.some.injEq, Prod.mk.injEq] at hlines
    exact ⟨hlines.1.symm, hlines.2.symm⟩

namespace Parse

theorem symbols_whole (settings : Settings) (path : Path) (source : Bytes) (tree : Node) :
    (whole settings path source (some tree)).symbols =
      Keyed.merge Symbol.key Symbol.join
        (Findings.ofTree source (options settings 0 false) tree).symbols := by
  rw [whole, Findings.symbols_merge, List.flatMap_singleton]

theorem ofFile_unchunked {settings : Settings} {path : Path} {source : Bytes}
    (h : check settings path source = .ok ()) (forest : Forest) {tree : Node}
    (hwhole : forest.whole = .tree tree) :
    Findings.ofFile settings.unchunked path source forest =
      .ok (finish settings.unchunked source (whole settings path source (some tree))) := by
  have hcheck : check settings.unchunked path source = .ok () := h
  rw [ofFile_of_accepted hcheck, hwhole]
  rfl

section

variable {settings : Settings} {path : Path} {source : Bytes} {tree : Node} {name : String}
  (hunit : tree.IsUnit) (htop : tree.FileScopedOnTop) (htypes : tree.NoNamespaceInType)
  (hgrammar : tree.Grammatical)
  (hknows : (Outline.ofTree tree source).Knows
    (Findings.ofTree source (options settings 0 false) tree).symbols name)

include hunit htop htypes hgrammar hknows

/-- All symbols under a name that the outline knows have one key, so the group of a merged symbol
holds all of them. -/
theorem filter_key_eq {s : Symbol} (hs : s ∈ (whole settings path source (some tree)).symbols)
    (hnamed : s.entry.isContainerNamed name) :
    (Findings.ofTree source (options settings 0 false) tree).symbols.filter (·.key == s.key) =
      (Findings.ofTree source (options settings 0 false) tree).symbols.filter
        (·.entry.isContainerNamed name) := by
  rw [symbols_whole] at hs
  obtain ⟨hkind, hname⟩ := Symbol.isContainerNamed_iff.1 hnamed
  obtain ⟨t, ht, htkey⟩ := List.mem_map.1
    ((Keyed.mem_map_key_merge Symbol.keepsKey_join).1 (List.mem_map_of_mem hs))
  obtain ⟨htname, htkind⟩ := Prod.mk.inj htkey
  have htnamed : t.entry.isContainerNamed name :=
    Symbol.isContainerNamed_iff.2 ⟨htkind ▸ hkind, htname.trans hname⟩
  refine List.filter_congr fun u hu => ?_
  rw [Bool.eq_iff_iff, beq_iff_eq]
  constructor
  · intro hkey
    obtain ⟨huname, hukind⟩ := Prod.mk.inj hkey
    exact Symbol.isContainerNamed_iff.2 ⟨hukind ▸ hkind, huname.trans hname⟩
  · intro hunamed
    have hukind := hknows.kind_eq hunit htop htypes hgrammar rfl hu ht hunamed htnamed
    exact Prod.ext ((Symbol.isContainerNamed_iff.1 hunamed).2.trans hname.symm)
      (hukind.trans htkind)

theorem lines_whole {s : Symbol} (hs : s ∈ (whole settings path source (some tree)).symbols)
    (hnamed : s.entry.isContainerNamed name) :
    (((Findings.ofTree source (options settings 0 false) tree).symbols.filter
        (·.entry.isContainerNamed name)).map Symbol.startLine).min? = some s.startLine ∧
      (((Findings.ofTree source (options settings 0 false) tree).symbols.filter
        (·.entry.isContainerNamed name)).map Symbol.endLine).max? = some s.endLine := by
  rw [← filter_key_eq hunit htop htypes hgrammar hknows hs hnamed]
  rw [symbols_whole] at hs
  have hunites := (Symbol.represents_merge _).stands s hs (Symbol.isContainerNamed_iff.1 hnamed).1
  exact ⟨hunites.startLine, hunites.endLine⟩

variable (path) in
/-- Read whole, a file reports a name that its outline knows from the first line that the outline
says, and to the last one unless a file-scoped namespace is among the declarations. -/
theorem reportsOn_whole {first last : Nat}
    (hspan : (Outline.ofTree tree source).spanOf? name = some (first, last)) :
    ∃ stop, (whole settings path source (some tree)).ReportsOn name first stop ∧
      ((∀ scope ∈ (Outline.ofTree tree source).containers, scope.qualifiedName = name →
        scope.fileScoped = false) → stop = last) := by
  have hlines {s : Symbol} (hs : s ∈ (whole settings path source (some tree)).symbols)
      (hnamed : s.entry.isContainerNamed name) :=
    lines_whole hunit htop htypes hgrammar hknows hs hnamed
  obtain ⟨hfirst, hlast⟩ := Outline.spanOf?_eq_some_iff.1 hspan
  rw [hknows.startLines_eq hunit htop htypes hgrammar rfl] at hfirst
  obtain ⟨s, hs, hnamed⟩ : ∃ s ∈ (whole settings path source (some tree)).symbols,
      s.entry.isContainerNamed name := by
    obtain ⟨t, ht, -⟩ := List.mem_map.1 (List.min?_eq_some_iff.1 hfirst).1
    obtain ⟨ht, htnamed⟩ := List.mem_filter.1 ht
    obtain ⟨s, hs, hkey⟩ := List.mem_map.1
      ((Keyed.mem_map_key_merge Symbol.keepsKey_join).2 (List.mem_map_of_mem ht))
    obtain ⟨hname, hkind⟩ := Prod.mk.inj hkey
    obtain ⟨htkind, htname⟩ := Symbol.isContainerNamed_iff.1 htnamed
    rw [symbols_whole]
    exact ⟨s, hs, Symbol.isContainerNamed_iff.2 ⟨hkind ▸ htkind, hname.trans htname⟩⟩
  refine ⟨s.endLine, ⟨⟨s, hs, hnamed⟩, fun t ht htnamed => ⟨?_, ?_⟩⟩, fun hblocks => ?_⟩
  · exact Option.some.inj ((hlines ht htnamed).1.symm.trans hfirst)
  · exact Option.some.inj ((hlines ht htnamed).2.symm.trans (hlines hs hnamed).2)
  · rw [hknows.endLines_eq hunit htop htypes hgrammar rfl hblocks] at hlast
    exact Option.some.inj ((hlines hs hnamed).2.symm.trans hlast)

end

end Parse

/-- Whether a file is read by chunks or whole, private symbols included, the namespace or type of a
name that its outline knows begins on the same line. It also ends on the same line, unless it is a
file-scoped namespace. -/
theorem Findings.ofFile_sameLines {settings : Settings} {path : Path} {source : Bytes}
    {chunks : List Chunk} (forest : Forest) {root : Node} {name : String}
    (hwhole : forest.whole = .tree root)
    (hread : Parse.IsReadBy settings path source forest.whole chunks)
    (hprivate : settings.extraction.includePrivate = true)
    (hunit : root.IsUnit) (htop : root.FileScopedOnTop) (htypes : root.NoNamespaceInType)
    (hgrammar : root.Grammatical)
    (hknows : (Outline.ofTree root source).Knows
      (ofTree source (Parse.options settings 0 false) root).symbols name) :
    ∃ f g first last stop, ofFile settings path source forest = .ok f ∧
      ofFile settings.unchunked path source forest = .ok g ∧
      f.ReportsOn name first last ∧ g.ReportsOn name first stop ∧
      ((∀ scope ∈ (Outline.ofTree root source).containers, scope.qualifiedName = name →
        scope.fileScoped = false) → stop = last) := by
  obtain ⟨scope, hscope, rfl⟩ := hknows.declared
  obtain ⟨first, last, hspan⟩ := Outline.exists_spanOf? hscope
  obtain ⟨stop, hreports, hstop⟩ :=
    Parse.reportsOn_whole path hunit htop htypes hgrammar hknows hspan
  refine ⟨_, _, first, last, stop, hread.ofFile_eq_of_tree hwhole,
    Parse.ofFile_unchunked hread.cut.1 forest hwhole, ?_, ?_, hstop⟩
  · have hchunked := Parse.reportedAmong_chunked settings path source (some root)
      (Outline.ofTree root source) forest chunks
    rw [← Parse.symbols_finish hprivate source] at hchunked
    exact hchunked.reportsOn hscope hspan
  · have hunchunked : settings.unchunked.extraction.includePrivate = true := hprivate
    have hsymbols := Parse.symbols_finish hunchunked source
      (Parse.whole settings path source (some root))
    exact ⟨hsymbols ▸ hreports.reported, hsymbols ▸ hreports.lines⟩

/-- The two parts of `classInParts` are one class, whichever way the file is read. -/
theorem Findings.ofFile_sameLines_classInParts :
    ∃ f g first last, ofFile { chunking := { maxChunkBytes := 20 } } ⟨"A.cs"⟩ classInParts
        { whole := classInPartsTree } = .ok f ∧
      ofFile { chunking := { maxChunkBytes := 20, enabled := false } } ⟨"A.cs"⟩ classInParts
        { whole := classInPartsTree } = .ok g ∧
      f.ReportsOn "A" first last ∧ g.ReportsOn "A" first last := by
  have hread : Parse.IsReadBy { chunking := { maxChunkBytes := 20 } } ⟨"A.cs"⟩ classInParts
      classInPartsTree
      (Chunk.split { maxChunkBytes := 20 } classInParts [20] (.ofTree classInPartsTree classInParts)
        (.ofSource classInParts)) :=
    ⟨by decide +kernel, [20], .declarations, by decide +kernel⟩
  have hunit : classInPartsTree.IsUnit := .inl (by decide +kernel)
  have htop : classInPartsTree.FileScopedOnTop := by
    unfold Node.FileScopedOnTop Node.LacksFileScoped
    decide +kernel
  have htypes : classInPartsTree.NoNamespaceInType := by
    unfold Node.NoNamespaceInType
    decide +kernel
  have hgrammar : classInPartsTree.Grammatical := ⟨by decide +kernel, by decide +kernel⟩
  have hknows : (Outline.ofTree classInPartsTree classInParts).Knows
      (ofTree classInParts (Parse.options { chunking := { maxChunkBytes := 20 } } 0 false)
        classInPartsTree).symbols "A" :=
    ⟨by decide +kernel, by decide +kernel, by decide +kernel⟩
  obtain ⟨f, g, first, last, stop, hf, hg, hchunked, hwhole, hstop⟩ :=
    ofFile_sameLines { whole := classInPartsTree } rfl hread rfl hunit htop htypes hgrammar hknows
  obtain rfl := hstop (by decide +kernel)
  exact ⟨f, g, first, stop, hf, hg, hchunked, hwhole⟩

/-- A file-scoped namespace with a class in each of two chunks. -/
def classesInFile : Bytes :=
  .ofString "namespace A;\nclass B \x7b \x7d\nclass C \x7b \x7d\n"

namespace classesInFile

/-- The tree of the namespace. -/
def heading : Node :=
  .mk { name := "file_scoped_namespace_declaration", start := 0, stop := 12 } [
    .mk { name := "identifier", field := "name", start := 10, stop := 11 } []]

/-- The tree of the class that begins at `start`. -/
def type (start : Nat) : Node :=
  .mk { name := "class_declaration", start, stop := start + 11 } [
    .mk { name := "identifier", field := "name", start := start + 6, stop := start + 7 } [],
    .mk { name := "declaration_list", field := "body", start := start + 8, stop := start + 11 } []]

/-- The tree of the file. -/
def tree : Node :=
  .mk { name := "compilation_unit", start := 0, stop := 37 } [heading, type 13, type 25]

/-- The tree of a chunk: the namespace and one class. -/
def chunk : Node := .mk { name := "compilation_unit", start := 0, stop := 25 } [heading, type 13]

end classesInFile

/-- The trees of `classesInFile` and of its chunks, of which the second has the same text as the
first but for the name of its class. -/
def classesInFileForest : Forest where
  whole := classesInFile.tree
  chunks := [classesInFile.chunk, classesInFile.chunk]

/-- Settings under which `classesInFile` is cut in two. -/
def classesInFileSettings : Settings := { chunking := { maxChunkBytes := 25, overlapLines := 0 } }

/-- The lines of the namespaces and types of a name. -/
def Findings.linesOf (name : String) (f : Findings) : List (Nat × Nat) :=
  (f.symbols.filter (·.entry.isContainerNamed name)).map fun s => (s.startLine, s.endLine)

/-- Read by chunks, the namespace of `classesInFile` has three lines. Read whole, it has one. -/
theorem Findings.ofFile_fileScoped :
    Parse.IsReadBy classesInFileSettings ⟨"A.cs"⟩ classesInFile classesInFileForest.whole
        (Chunk.split classesInFileSettings.chunking classesInFile [25]
          (.ofTree classesInFile.tree classesInFile) (.ofSource classesInFile)) ∧
      (ofFile classesInFileSettings ⟨"A.cs"⟩ classesInFile classesInFileForest).toOption.map
        (linesOf "A") = some [(1, 3)] ∧
      (ofFile classesInFileSettings.unchunked ⟨"A.cs"⟩ classesInFile
        classesInFileForest).toOption.map (linesOf "A") = some [(1, 1)] :=
  ⟨⟨by decide +kernel, [25], .declarations, by decide +kernel⟩, by decide +kernel,
    by decide +kernel⟩

end SymbolAtlas
