import Mathlib.Tactic
import SymbolAtlas.Proofs.Boundary.Packing
import SymbolAtlas.Proofs.Tree.Nodes

/-!
# The text in front of the first declaration

Boundaries between declarations lie behind the start of the first of them. Only the cuts of a range
that begins with the file can lie in front of it, and they do so only if the first of them does: if
the header reaches into the window in which that cut is looked for, or if nothing is ranked in the
window and the last line of the chunk begins in the header (`Cutter.CutsHeader`).

* `Node.InOrder.pairwise_topLevelDeclarations` — the declarations of a tree follow each other.
* `Cutter.Packing.Begins` — where the first piece ends, declaration by declaration.
* `Cutter.plan_keepsHeader` — where the boundaries of a plan lie.
* `Cutter.plan_cuts_header` — a text whose header is cut.
-/

namespace SymbolAtlas

/-! ### The declarations of a tree follow each other -/

namespace Node.InOrder

variable {n root : Node} {d : Nat × Nat}

/-- A declaration found at a node lies inside of it. -/
theorem of_mem_declarationsAt (h : n.InOrder) (hself : n.start ≤ n.stop)
    (hd : d ∈ n.declarationsAt) : n.start ≤ d.1 ∧ d.1 ≤ d.2 ∧ d.2 ≤ n.stop := by
  obtain ⟨m, hm, rfl⟩ := exists_of_mem_declarationsAt hd
  exact ⟨h.start_le hm, h.start_le_stop hself hm, h.stop_le hm⟩

/-- Where nodes follow each other, so do the declarations found at them. -/
theorem pairwise_declarationsAmong {ns : List Node} (hin : ∀ n ∈ ns, n.InOrder)
    (hself : ∀ n ∈ ns, n.start ≤ n.stop) (hordered : ns.Pairwise fun a b => a.stop ≤ b.start)
    (hat : ∀ n ∈ ns, n.declarationsAt.Pairwise fun d e => d.2 ≤ e.1) :
    (declarationsAmong ns).Pairwise fun d e => d.2 ≤ e.1 := by
  induction ns with
  | nil => exact .nil
  | cons n ns ih =>
    obtain ⟨hafter, hordered⟩ := List.pairwise_cons.1 hordered
    rw [List.forall_mem_cons] at hin hself hat
    rw [declarationsAmong]
    refine List.pairwise_append.2 ⟨hat.1, ih hin.2 hself.2 hordered hat.2, fun d hd e he => ?_⟩
    obtain ⟨m, hm, he⟩ := mem_declarationsAmong.1 he
    have hd' := hin.1.of_mem_declarationsAt hself.1 hd
    have he' := (hin.2 m hm).of_mem_declarationsAt (hself.2 m hm) he
    have := hafter m hm
    omega

theorem pairwise_children (h : n.InOrder)
    (hat : ∀ c ∈ n.children, c.declarationsAt.Pairwise fun d e => d.2 ≤ e.1) :
    (declarationsAmong n.children).Pairwise fun d e => d.2 ≤ e.1 :=
  pairwise_declarationsAmong (fun _ hc => h.child hc)
    (fun c hc => (h.inside n n.self_mem_nodes c hc).2.1) (h.ordered n n.self_mem_nodes) hat

theorem pairwise_declarationsAt (h : n.InOrder) :
    n.declarationsAt.Pairwise fun d e => d.2 ≤ e.1 := by
  induction n using belowInduction with
  | node n ih =>
    have hbelow {c m : Node} (hc : c ∈ n.children) (hm : m ∈ c.nodes) :
        m.declarationsAt.Pairwise fun d e => d.2 ≤ e.1 :=
      ih c hc m hm (h.of_mem_nodes (mem_nodes_of_mem_children hc hm))
    rcases n.declarationsAt_eq_cases with heq | heq | heq | ⟨body, hbody, heq⟩ <;> rw [heq]
    · exact .nil
    · exact List.pairwise_singleton _ _
    · exact h.pairwise_children fun c hc => hbelow hc c.self_mem_nodes
    · exact (h.child hbody).pairwise_children fun c hc => hbelow hbody (child_mem_nodes hc)

theorem pairwise_topLevelDeclarations (h : root.InOrder) :
    root.topLevelDeclarations.Pairwise fun d e => d.2 ≤ e.1 :=
  h.pairwise_children fun _ hc => (h.child hc).pairwise_declarationsAt

/-- No declaration ends in front of the first one. -/
theorem first_le_stop (h : root.InOrder) {first : Nat × Nat} {rest : List (Nat × Nat)}
    (hfirst : root.topLevelDeclarations = first :: rest) :
    ∀ d ∈ root.topLevelDeclarations, first.1 ≤ d.2 := by
  have hspan : ∀ d ∈ root.topLevelDeclarations, d.1 ≤ d.2 := by
    intro d hd
    obtain ⟨n, hn, hd⟩ := mem_declarationsAmong.1 hd
    exact ((h.child hn).of_mem_declarationsAt (h.inside root root.self_mem_nodes n hn).2.1 hd).2.1
  have hpairwise := h.pairwise_topLevelDeclarations
  rw [hfirst] at hspan hpairwise ⊢
  have hself := hspan first List.mem_cons_self
  intro d hd
  rcases List.mem_cons.1 hd with rfl | hd'
  · exact hself
  · have hafter := (List.pairwise_cons.1 hpairwise).1 d hd'
    have := hspan d hd
    omega

end Node.InOrder

namespace Cutter

variable {c : Cutter} {p : Packing} {offset : Nat}

/-! ### The first cut of a file -/

/-- The cut after the start of a file, while more than a chunk is left. -/
def firstCut (c : Cutter) : Nat := c.cut 0 (c.settings.limit + 1)

/-- The first cut is the same whatever follows the chunk. -/
theorem cut_zero {limit : Nat} (h : c.settings.limit < limit) : c.cut 0 limit = c.firstCut := by
  have hedge : c.highEdge 0 limit = c.highEdge 0 (c.settings.limit + 1) := by
    simp only [highEdge]
    omega
  simp only [firstCut, cut, hedge]

theorem eq_firstCut {limit next : Nat} {more : List Nat} (h : c.cuts 0 limit = next :: more) :
    next = c.firstCut := by
  rw [cuts] at h
  dsimp only at h
  split at h
  case isTrue hlong =>
    split at h
    case isTrue => exact (List.cons.inj h).1 ▸ cut_zero (by omega)
    case isFalse => cases h
  case isFalse => cases h

/-- The first cut lies in the window in which cuts are looked for, or nothing is ranked there and it
lies no earlier than the last line of the chunk begins. -/
theorem firstCut_cases (hc : c.Ordered) :
    c.lowEdge 0 ≤ c.firstCut ∨
      c.OutOfReach 0 (c.settings.limit + 1) ∧ c.lineStart c.settings.limit ≤ c.firstCut := by
  rcases cut_cases hc 0 (c.settings.limit + 1) with ⟨best, hbest, heq⟩ | ⟨hout, heq⟩
  · rw [firstCut, heq]
    exact Or.inl hbest.inReach.1
  · refine Or.inr ⟨hout, ?_⟩
    have hedge : c.highEdge 0 (c.settings.limit + 1) = c.settings.limit := by simp [highEdge]
    rw [firstCut, heq, hedge, lineStart, forcedCut]
    split
    case h_1 line hline =>
      rw [hline, Option.getD_some]
      split
      case isTrue => exact le_rfl
      case isFalse hzero => exact (Nat.not_lt.1 hzero).trans (Nat.zero_le _)
    case h_2 hline =>
      rw [hline]
      exact Nat.zero_le _

/-! ### The end of the first piece -/

/-- Where the first piece ends, seen from an offset: nowhere yet, behind the offset, or at a cut of
the file's beginning that lies no further than the offset. -/
inductive Packing.Begins (c : Cutter) (offset : Nat) (p : Packing) : Prop
  | unended (boundaries : p.boundaries = []) (pieceStart : p.pieceStart = 0)
  | behind (boundaries : ∀ b ∈ p.boundaries, offset < b) (pieceStart : offset < p.pieceStart)
  | cut (head : p.boundaries.head? = some c.firstCut) (le : c.firstCut ≤ offset)
      (usedScan : p.usedScan = true)

namespace Packing.Begins

theorem addCuts_behind {cuts : List Nat} (hboundaries : ∀ b ∈ p.boundaries, offset < b)
    (hcuts : ∀ b ∈ cuts, offset < b) (hstart : cuts = [] → offset < p.pieceStart) :
    Begins c offset (p.addCuts cuts) := by
  refine .behind (fun b hb => ?_) ?_
  · rcases List.mem_append.1 hb with hb | hb
    · exact hboundaries b hb
    · exact hcuts b hb
  · cases hlast : cuts.getLast? with
    | none => simpa [addCuts, hlast] using hstart (List.getLast?_eq_none_iff.1 hlast)
    | some last => simpa [addCuts, hlast] using hcuts last (List.mem_of_getLast? hlast)

/-- Cuts go on from the start of the current piece. -/
theorem addCuts (h : Begins c offset p) (hc : c.Ordered) (limit : Nat) :
    Begins c offset (p.addCuts (c.cuts p.pieceStart limit)) := by
  have hdivides := divides_cuts hc p.pieceStart limit
  cases h with
  | unended boundaries pieceStart =>
    rw [pieceStart] at hdivides ⊢
    cases hcuts : c.cuts 0 limit with
    | nil => exact .unended (by simp [Packing.addCuts, boundaries]) (by simpa [Packing.addCuts])
    | cons next more =>
      obtain rfl := eq_firstCut hcuts
      rw [hcuts] at hdivides
      rcases Nat.lt_or_ge offset c.firstCut with hlt | hle
      · -- All further cuts lie behind the first one.
        refine addCuts_behind (by simp [boundaries]) (fun b hb => ?_) (by simp)
        rcases List.mem_cons.1 hb with rfl | hb
        · exact hlt
        · exact hlt.trans ((List.pairwise_cons.1 hdivides.ascending).1 b hb)
      · exact .cut (by simp [Packing.addCuts, boundaries]) hle (by simp [Packing.addCuts])
  | behind boundaries pieceStart =>
    exact addCuts_behind boundaries (fun b hb => pieceStart.trans (hdivides.between b hb).1)
      fun _ => pieceStart
  | cut head le usedScan =>
    exact .cut (by simp [Packing.addCuts, List.head?_append, head]) le
      (by simp [Packing.addCuts, usedScan])

/-- A new piece begins behind the last declaration. -/
theorem makeRoom (h : Begins c offset p) (hline : ∀ offset, c.lineStart offset < c.mask.size)
    (hlast : ∀ stop ∈ p.lastStop, offset ≤ stop) (start stop : Nat) :
    Begins c offset (c.makeRoom p start stop) := by
  rcases c.makeRoom_cases p start stop with heq | ⟨lastStop, hsome, -, hle, heq⟩
  · rw [heq]
    exact h
  · rw [heq]
    have hbehind : offset < c.nextLine lastStop := by
      rcases c.nextLine_cases lastStop with hend | ⟨hlt, -⟩
      · have := hline start
        omega
      · exact (hlast lastStop hsome).trans_lt hlt
    cases h with
    | unended boundaries => exact .behind (by simpa [boundaries]) hbehind
    | behind boundaries =>
      refine .behind (fun b hb => ?_) hbehind
      rcases List.mem_append.1 hb with hb | hb
      · exact boundaries b hb
      · exact List.mem_singleton.1 hb ▸ hbehind
    | cut head le usedScan => exact .cut (by simp [List.head?_append, head]) le usedScan

theorem pack (h : Begins c offset p) (hc : c.Ordered)
    (hline : ∀ offset, c.lineStart offset < c.mask.size)
    (hlast : ∀ stop ∈ p.lastStop, offset ≤ stop) (d : Nat × Nat) :
    Begins c offset (c.pack p d) := by
  have hroom := h.makeRoom hline hlast d.1 d.2
  have hcut : Begins c offset (if c.settings.limit < d.2 - d.1 then
      (c.makeRoom p d.1 d.2).addCuts (c.cuts (c.makeRoom p d.1 d.2).pieceStart d.2)
      else c.makeRoom p d.1 d.2) := by
    split
    · exact hroom.addCuts hc d.2
    · exact hroom
  -- What is noted of the declaration does not move a boundary.
  cases hcut with
  | unended boundaries pieceStart => exact .unended boundaries pieceStart
  | behind boundaries pieceStart => exact .behind boundaries pieceStart
  | cut head le usedScan => exact .cut head le usedScan

theorem foldl_pack (h : Begins c offset p) (hc : c.Ordered)
    (hline : ∀ offset, c.lineStart offset < c.mask.size)
    (hlast : ∀ stop ∈ p.lastStop, offset ≤ stop) {ds : List (Nat × Nat)}
    (hds : ∀ d ∈ ds, offset ≤ d.2) : Begins c offset (ds.foldl c.pack p) := by
  induction ds generalizing p with
  | nil => exact h
  | cons d ds ih =>
    obtain ⟨hd, hds⟩ := List.forall_mem_cons.1 hds
    refine ih (h.pack hc hline hlast d) ?_ hds
    rintro stop ⟨⟩
    exact hd

end Packing.Begins

/-! ### The plan of a file -/

/-- The first boundary lies no further than the header of `offset` bytes. It is the first cut of the
file, which was needed because not all pieces are whole declarations; and the header reaches into
the window in which that cut was looked for, or nothing is ranked there and the last line of the
chunk begins no further than the header. -/
structure CutsHeader (c : Cutter) (offset : Nat) (boundaries : List Nat) (strategy : Strategy) :
    Prop where
  head : boundaries.head? = some c.firstCut
  le : c.firstCut ≤ offset
  strategy : strategy ≠ .declarations
  cause : c.lowEdge 0 ≤ offset ∨
    c.OutOfReach 0 (c.settings.limit + 1) ∧ c.lineStart c.settings.limit ≤ offset

theorem Packing.Begins.keeps_or_cutsHeader (h : Begins c offset p) (hc : c.Ordered)
    {strategy : Strategy} (hstrategy : p.usedScan = true → strategy ≠ .declarations) :
    (∀ b ∈ p.boundaries, offset < b) ∨ CutsHeader c offset p.boundaries strategy := by
  cases h with
  | unended boundaries => exact Or.inl (by simp [boundaries])
  | behind boundaries => exact Or.inl boundaries
  | cut head le usedScan =>
    refine Or.inr ⟨head, le, hstrategy usedScan, ?_⟩
    exact (firstCut_cases hc).imp (·.trans le) (And.imp_right (·.trans le))

/-- **The text in front of the first declaration stays in one piece with it**, unless the first cut
of the file lies there. For every text, all settings and every tree in order with a declaration: if
the file is split, then all boundaries lie behind the start of the first declaration, or the first
boundary is the first cut and cuts the header. So a plan of whole declarations never cuts it, and no
plan does if the header ends before the window of the first cut, and a line end is ranked there. -/
theorem plan_keepsHeader (settings : Settings.Chunking) (source : Bytes) {root : Node}
    (hroot : root.InOrder) {first : Nat × Nat} {rest : List (Nat × Nat)}
    (hfirst : root.topLevelDeclarations = first :: rest) {boundaries : List Nat}
    {strategy : Strategy}
    (h : (ofMask settings (.ofSource source)).plan (some root) = .split boundaries strategy) :
    (∀ b ∈ boundaries, first.1 < b) ∨
      CutsHeader (ofMask settings (.ofSource source)) first.1 boundaries strategy := by
  have hc := ordered_ofMask settings (.ofSource source)
  have hempty : Packing.Begins (ofMask settings (.ofSource source)) first.1 {} := .unended rfl rfl
  cases splitBy_of_plan_eq h with
  | whole small => exact Or.inl (by simp)
  | scan large => exact (hempty.addCuts hc _).keeps_or_cutsHeader hc (by simp)
  | pack large =>
    have hsize : (ofMask settings (.ofSource source)).mask.size = source.length :=
      Mask.length_code_ofSource source
    have hline := lineStart_lt_size settings
      (hsize ▸ (settings.limit_pos.trans large) : 0 < source.length)
    have hfold := hempty.foldl_pack hc hline (by simp) (hroot.first_le_stop hfirst)
    have hpacked : Packing.Begins _ first.1 (packed _ root.topLevelDeclarations) :=
      hfold.addCuts hc _
    refine hpacked.keeps_or_cutsHeader hc fun hused => ?_
    simp [hused]

/-- Two classes behind a header. -/
def importingClasses : Bytes := .ofString "using A;\nclass B \x7b \x7d\nclass C \x7b \x7d\n"

def importingClassesTree : Node :=
  .mk { name := "compilation_unit", start := 0, stop := 33 } [
    .mk { name := "using_directive", start := 0, stop := 8 } [
      .mk { name := "identifier", start := 6, stop := 7 } []],
    .mk { name := "class_declaration", start := 9, stop := 20 } [
      .mk { name := "identifier", field := "name", start := 15, stop := 16 } [],
      .mk { name := "declaration_list", field := "body", start := 17, stop := 20 } []],
    .mk { name := "class_declaration", start := 21, stop := 32 } [
      .mk { name := "identifier", field := "name", start := 27, stop := 28 } [],
      .mk { name := "declaration_list", field := "body", start := 29, stop := 32 } []]]

theorem inOrder_importingClassesTree : importingClassesTree.InOrder := by
  constructor <;> decide +kernel

/-- The header and the first class make one piece. -/
theorem plan_keepsHeader_importingClasses :
    importingClassesTree.InOrder ∧
      importingClassesTree.topLevelDeclarations = (9, 20) :: [(21, 32)] ∧
      (ofMask { maxChunkBytes := 25 } (.ofSource importingClasses)).plan
        (some importingClassesTree) = .split [21] .declarations ∧
      ∀ b ∈ [21], 9 < b := by
  have hfirst : importingClassesTree.topLevelDeclarations = (9, 20) :: [(21, 32)] := by
    decide +kernel
  have hplan : (ofMask { maxChunkBytes := 25 } (.ofSource importingClasses)).plan
      (some importingClassesTree) = .split [21] .declarations := by decide +kernel
  refine ⟨inOrder_importingClassesTree, hfirst, hplan, ?_⟩
  rcases plan_keepsHeader _ _ inOrder_importingClassesTree hfirst hplan with hbehind | hcuts
  · exact hbehind
  · exact absurd rfl hcuts.strategy

/-- A class behind a header that is nearly as long as a piece. -/
def longHeader : Bytes :=
  .ofString ("using A;\nusing B;\nusing C;\nusing D;\nusing E;\n\n" ++
    "class F \x7b\nint x;\nint y;\n\x7d\n")

def longHeaderTree : Node :=
  .mk { name := "compilation_unit", start := 0, stop := 72 } [
    .mk { name := "using_directive", start := 0, stop := 8 } [],
    .mk { name := "using_directive", start := 9, stop := 17 } [],
    .mk { name := "using_directive", start := 18, stop := 26 } [],
    .mk { name := "using_directive", start := 27, stop := 35 } [],
    .mk { name := "using_directive", start := 36, stop := 44 } [],
    .mk { name := "class_declaration", start := 46, stop := 71 } [
      .mk { name := "identifier", field := "name", start := 52, stop := 53 } [],
      .mk { name := "declaration_list", field := "body", start := 54, stop := 71 } [
        .mk { name := "field_declaration", start := 56, stop := 62 } [],
        .mk { name := "field_declaration", start := 63, stop := 69 } []]]]

/-- The last line of the header is ranked above the lines of the class, so that the file is cut in
front of its only class. -/
theorem plan_cuts_header :
    longHeaderTree.InOrder ∧ longHeaderTree.topLevelDeclarations = [(46, 71)] ∧
      (ofMask { maxChunkBytes := 63 } (.ofSource longHeader)).plan (some longHeaderTree) =
        .split [45] .mixed := by
  refine ⟨?_, by decide +kernel, by decide +kernel⟩
  constructor <;> decide +kernel

end Cutter

end SymbolAtlas
