import Mathlib.Tactic
import SymbolAtlas.Proofs.Boundary.Origin
import SymbolAtlas.Proofs.Boundary.Pieces
import SymbolAtlas.Proofs.Mask.Transcript
import SymbolAtlas.Proofs.Tree.Nodes

/-!
# Boundaries between declarations

The boundaries of a plan come from three places: between declarations, inside declarations that are
too large, and behind the last one. All of them go on from the start of the current piece, which is
the last boundary so far (`Ascends`), so that they ascend whatever the order and the sizes of the
declarations are.

As long as no declaration had to be cut, every boundary begins a line between two declarations that
follow each other (`Packing.Separated`).

* `Ascends.foldl_pack`, `Packing.Separated.foldl_pack` — what packing all declarations keeps;
* `plan_places` — the boundaries of a plan.
-/

namespace SymbolAtlas

/-! ### The declarations of a tree -/

namespace Node

variable {n : Node} {d : Nat × Nat}

theorem mem_declarationsAmong {ns : List Node} :
    d ∈ declarationsAmong ns ↔ ∃ n ∈ ns, d ∈ n.declarationsAt := by
  induction ns with
  | nil => simp [declarationsAmong]
  | cons n ns ih => simp [declarationsAmong, ih]

theorem exists_of_declarationsInBody {ns : List Node} {spans : List (Nat × Nat)}
    (h : declarationsInBody ns = some spans) :
    ∃ body ∈ ns, spans = declarationsAmong body.children := by
  induction ns with
  | nil => cases h
  | cons n ns ih =>
    cases n with
    | mk label children =>
      rw [declarationsInBody] at h
      split at h
      · exact ⟨_, List.mem_cons_self, (Option.some.inj h).symm⟩
      · obtain ⟨body, hbody, hspans⟩ := ih h
        exact ⟨body, List.mem_cons_of_mem _ hbody, hspans⟩

/-- All that can be found at a node: nothing, the node, or what is found among its children or among
those of its body. -/
theorem declarationsAt_eq_cases (n : Node) :
    n.declarationsAt = [] ∨ n.declarationsAt = [(n.start, n.stop)] ∨
      n.declarationsAt = declarationsAmong n.children ∨
      ∃ body ∈ n.children, n.declarationsAt = declarationsAmong body.children := by
  cases n with
  | mk label children =>
    simp only [declarationsAt]
    split
    · exact Or.inl rfl
    · split
      · exact Or.inr (Or.inl rfl)
      · split
        · split
          case h_1 spans hbody =>
            exact Or.inr (Or.inr (Or.inr (exists_of_declarationsInBody hbody)))
          case h_2 => exact Or.inr (Or.inr (Or.inl rfl))
        · split
          · exact Or.inr (Or.inr (Or.inl rfl))
          · exact Or.inl rfl

/-- A declaration found at a node is the node, or it is found at a node below. -/
theorem declarationsAt_cases (hd : d ∈ n.declarationsAt) :
    d = (n.start, n.stop) ∨ ∃ c ∈ n.children, ∃ m ∈ c.nodes, d ∈ m.declarationsAt := by
  rcases n.declarationsAt_eq_cases with heq | heq | heq | ⟨body, hbody, heq⟩ <;> rw [heq] at hd
  · cases hd
  · exact Or.inl (List.mem_singleton.1 hd)
  · obtain ⟨c, hc, hd⟩ := mem_declarationsAmong.1 hd
    exact Or.inr ⟨c, hc, c, c.self_mem_nodes, hd⟩
  · obtain ⟨m, hm, hd⟩ := mem_declarationsAmong.1 hd
    exact Or.inr ⟨body, hbody, m, child_mem_nodes hm, hd⟩

theorem exists_of_mem_declarationsAt (hd : d ∈ n.declarationsAt) :
    ∃ m ∈ n.nodes, d = (m.start, m.stop) := by
  induction n using belowInduction with
  | node n ih =>
    rcases declarationsAt_cases hd with rfl | ⟨c, hc, m, hm, hd⟩
    · exact ⟨n, n.self_mem_nodes, rfl⟩
    · obtain ⟨k, hk, rfl⟩ := ih c hc m hm hd
      exact ⟨k, mem_nodes_of_mem_children hc (mem_nodes_trans hk hm), rfl⟩

/-- The nodes of the tree span bytes of a text of `size` bytes. -/
def Spans (size : Nat) (root : Node) : Prop :=
  ∀ n ∈ root.nodes, n.start ≤ n.stop ∧ n.stop ≤ size

instance (size : Nat) (root : Node) : Decidable (root.Spans size) :=
  inferInstanceAs (Decidable (∀ n ∈ root.nodes, _))

theorem Spans.of_mem_topLevelDeclarations {size : Nat} {root : Node} (h : root.Spans size)
    (hd : d ∈ root.topLevelDeclarations) : d.1 ≤ d.2 ∧ d.2 ≤ size := by
  obtain ⟨n, hn, hd⟩ := mem_declarationsAmong.1 hd
  obtain ⟨m, hm, rfl⟩ := exists_of_mem_declarationsAt hd
  exact h m (mem_nodes_of_mem_children hn hm)

/-- Without a tree there are no declarations. -/
theorem spans_declarations {size : Nat} {tree : Option Node} (h : ∀ root ∈ tree, root.Spans size) :
    ∀ d ∈ (tree.map topLevelDeclarations).getD [], d.1 ≤ d.2 ∧ d.2 ≤ size := by
  intro d hd
  cases tree with
  | none => cases hd
  | some root => exact (h root rfl).of_mem_topLevelDeclarations hd

end Node

namespace Cutter

/-! ### Lines -/

theorem lineStart_le (c : Cutter) (offset : Nat) : c.lineStart offset ≤ offset := by
  rw [lineStart]
  cases hline : (c.mask.lineStarts.takeWhile (· ≤ offset)).getLast? with
  | none => exact Nat.zero_le _
  | some line => exact (of_getLast?_takeWhile hline).2

/-- The next line begins behind the offset, unless the text ends with the line. -/
theorem nextLine_cases (c : Cutter) (offset : Nat) :
    c.nextLine offset = c.mask.size ∨
      offset < c.nextLine offset ∧ c.nextLine offset ∈ c.mask.lineStarts := by
  rw [nextLine]
  cases hline : (c.mask.lineStarts.dropWhile (· ≤ offset)).head? with
  | none => exact Or.inl rfl
  | some line =>
    have hbehind := List.head?_dropWhile_not (· ≤ offset) c.mask.lineStarts
    rw [hline] at hbehind
    refine Or.inr ⟨by simpa using hbehind, ?_⟩
    exact (List.dropWhile_sublist _).subset (List.mem_of_head? hline)

theorem lineStarts_ofMask (settings : Settings.Chunking) (source : Bytes) :
    (ofMask settings (.ofSource source)).mask.lineStarts = source.lineStarts :=
  Mask.lineStarts_ofSource source

theorem lineStart_lt_size (settings : Settings.Chunking) {source : Bytes}
    (hsource : 0 < source.length) (offset : Nat) :
    (ofMask settings (.ofSource source)).lineStart offset <
      (ofMask settings (.ofSource source)).mask.size := by
  have hsize : (ofMask settings (.ofSource source)).mask.size = source.length :=
    Mask.length_code_ofSource source
  rw [hsize, lineStart]
  cases hline : ((ofMask settings (.ofSource source)).mask.lineStarts.takeWhile
      (· ≤ offset)).getLast? with
  | none => exact hsource
  | some line =>
    have hmem := (of_getLast?_takeWhile hline).1
    rw [lineStarts_ofMask] at hmem
    rcases List.mem_cons.1 hmem with rfl | hmem
    · exact hsource
    · simpa using (List.mem_filter.1 hmem).2

/-- A line other than the first begins behind a newline. -/
theorem getElem?_pred_of_mem_lineStarts {source : Bytes} {b : Nat} (hb : b ∈ source.lineStarts)
    (hpos : 0 < b) : source[b - 1]? = some Byte.newline := by
  rcases List.mem_cons.1 hb with rfl | hb
  · exact absurd hpos (lt_irrefl 0)
  · exact (Division.mem_afterNewlines.1 (List.mem_of_mem_filter hb)).2

/-! ### Ascending boundaries -/

/-- The boundaries ascend inside a text of `size` bytes, and the current piece begins at the last
one, or with the text. -/
structure Ascends (size : Nat) (boundaries : List Nat) (pieceStart : Nat) : Prop where
  ascending : (0 :: boundaries).Pairwise (· < ·)
  inside : ∀ b ∈ boundaries, b < size
  last : (0 :: boundaries).getLast? = some pieceStart

variable {c : Cutter} {p : Packing} {size pieceStart : Nat} {boundaries : List Nat}

theorem Ascends.le_pieceStart (h : Ascends size boundaries pieceStart) {b : Nat}
    (hb : b ∈ 0 :: boundaries) : b ≤ pieceStart := by
  have hle : (0 :: boundaries).Pairwise (· ≤ ·) := h.ascending.imp Nat.le_of_lt
  have hlast := h.last
  rw [List.getLast?_eq_some_getLast (List.cons_ne_nil 0 boundaries), Option.some.injEq] at hlast
  exact hlast ▸ hle.rel_getLast hb

theorem Ascends.append (h : Ascends size boundaries pieceStart) {cuts : List Nat}
    (hcuts : cuts.Pairwise (· < ·)) (hbetween : ∀ b ∈ cuts, pieceStart < b ∧ b < size) :
    Ascends size (boundaries ++ cuts) (cuts.getLast?.getD pieceStart) where
  ascending := by
    rw [← List.cons_append]
    refine List.pairwise_append.2 ⟨h.ascending, hcuts, fun a ha b hb => ?_⟩
    exact (h.le_pieceStart ha).trans_lt (hbetween b hb).1
  inside b hb := by
    rcases List.mem_append.1 hb with hb | hb
    · exact h.inside b hb
    · exact (hbetween b hb).2
  last := by
    rw [← List.cons_append, List.getLast?_append, h.last]
    cases cuts.getLast? <;> rfl

theorem Ascends.addCuts (h : Ascends size p.boundaries p.pieceStart) (hc : c.Ordered) {limit : Nat}
    (hlimit : limit ≤ size) :
    Ascends size (p.addCuts (c.cuts p.pieceStart limit)).boundaries
      (p.addCuts (c.cuts p.pieceStart limit)).pieceStart := by
  have hdivides := divides_cuts hc p.pieceStart limit
  refine h.append hdivides.ascending fun b hb => ?_
  exact ⟨(hdivides.between b hb).1, (hdivides.between b hb).2.trans_le hlimit⟩

theorem Ascends.makeRoom (h : Ascends size p.boundaries p.pieceStart)
    (hline : ∀ offset, c.lineStart offset < size) (start stop : Nat) :
    Ascends size (c.makeRoom p start stop).boundaries (c.makeRoom p start stop).pieceStart := by
  rcases c.makeRoom_cases p start stop with heq | ⟨lastStop, -, hstart, hle, heq⟩
  · rw [heq]
    exact h
  · rw [heq]
    refine h.append (List.pairwise_singleton _ _) fun b hb => ?_
    obtain rfl := List.mem_singleton.1 hb
    exact ⟨hstart, hle.trans_lt (hline start)⟩

theorem Ascends.pack (h : Ascends size p.boundaries p.pieceStart) (hc : c.Ordered)
    (hline : ∀ offset, c.lineStart offset < size) {d : Nat × Nat} (hd : d.2 ≤ size) :
    Ascends size (c.pack p d).boundaries (c.pack p d).pieceStart := by
  obtain ⟨start, stop⟩ := d
  have hroom := h.makeRoom hline start stop
  by_cases hlong : c.settings.limit < stop - start
  · simp only [Cutter.pack, if_pos hlong]
    exact hroom.addCuts hc hd
  · simp only [Cutter.pack, if_neg hlong]
    exact hroom

theorem Ascends.foldl_pack (h : Ascends size p.boundaries p.pieceStart) (hc : c.Ordered)
    (hline : ∀ offset, c.lineStart offset < size) {ds : List (Nat × Nat)}
    (hds : ∀ d ∈ ds, d.2 ≤ size) :
    Ascends size (ds.foldl c.pack p).boundaries (ds.foldl c.pack p).pieceStart := by
  induction ds generalizing p with
  | nil => exact h
  | cons d ds ih =>
    obtain ⟨hd, hds⟩ := List.forall_mem_cons.1 hds
    exact ih (h.pack hc hline hd) hds

theorem ascends_nil (size : Nat) : Ascends size [] 0 where
  ascending := List.pairwise_singleton _ _
  inside := by simp
  last := rfl

/-! ### Boundaries between declarations -/

/-- The offset lies behind one declaration and not behind the start of the next. -/
def Separates (declarations : List (Nat × Nat)) (b : Nat) : Prop :=
  ∃ front d e back, declarations = front ++ d :: e :: back ∧ d.2 < b ∧ b ≤ e.1

theorem Separates.append {declarations : List (Nat × Nat)} {b : Nat} (h : Separates declarations b)
    (more : List (Nat × Nat)) : Separates (declarations ++ more) b := by
  obtain ⟨front, d, e, back, rfl, hd, he⟩ := h
  exact ⟨front, d, e, back ++ more, by simp, hd, he⟩

/-- Declarations that follow each other lie on one side of the offset, each as a whole. -/
theorem Separates.not_cut {declarations : List (Nat × Nat)} {b : Nat}
    (h : Separates declarations b) (hspans : ∀ d ∈ declarations, d.1 ≤ d.2)
    (hordered : declarations.Pairwise fun d e => d.2 ≤ e.1) {d : Nat × Nat}
    (hd : d ∈ declarations) : d.2 < b ∨ b ≤ d.1 := by
  obtain ⟨front, x, y, back, rfl, hx, hy⟩ := h
  obtain ⟨-, hrest, hfront⟩ := List.pairwise_append.1 hordered
  obtain ⟨-, hback⟩ := List.pairwise_cons.1 hrest
  rcases List.mem_append.1 hd with hd | hd
  · have hbefore : d.2 ≤ x.1 := hfront d hd x List.mem_cons_self
    have hspan : x.1 ≤ x.2 := hspans x (by simp)
    exact Or.inl (by omega)
  · rcases List.mem_cons.1 hd with rfl | hd
    · exact Or.inl hx
    · rcases List.mem_cons.1 hd with rfl | hd
      · exact Or.inr hy
      · have hafter : y.2 ≤ d.1 := (List.pairwise_cons.1 hback).1 d hd
        have hspan : y.1 ≤ y.2 := hspans y (by simp)
        exact Or.inr (by omega)

namespace Packing

theorem usedScan_addCuts {cuts : List Nat} (h : (p.addCuts cuts).usedScan = false) :
    p.usedScan = false ∧ cuts = [] := by
  simpa [addCuts] using h

/-- The declarations `done` are packed. If none of them had to be cut, every boundary begins a line
between two of them. -/
structure Separated (c : Cutter) (done : List (Nat × Nat)) (p : Packing) : Prop where
  lastStop : p.lastStop = done.getLast?.map Prod.snd
  separates : p.usedScan = false →
    ∀ b ∈ p.boundaries, b ∈ c.mask.lineStarts ∧ Separates done b

theorem separated_nil (c : Cutter) : Separated c [] {} where
  lastStop := rfl
  separates := by simp

variable {done : List (Nat × Nat)}

/-- Room is made between the last declaration and the one it is made for. -/
theorem Separated.makeRoom (h : Separated c done p)
    (hline : ∀ offset, c.lineStart offset < c.mask.size) (d : Nat × Nat)
    (hused : (c.makeRoom p d.1 d.2).usedScan = false) :
    ∀ b ∈ (c.makeRoom p d.1 d.2).boundaries,
      b ∈ c.mask.lineStarts ∧ Separates (done ++ [d]) b := by
  rcases c.makeRoom_cases p d.1 d.2 with heq | ⟨lastStop, hlast, -, hle, heq⟩
  · rw [heq] at hused ⊢
    exact fun b hb => (h.separates hused b hb).imp_right (·.append [d])
  · rw [heq] at hused ⊢
    intro b hb
    rcases List.mem_append.1 hb with hb | hb
    · exact (h.separates hused b hb).imp_right (·.append [d])
    · obtain rfl := List.mem_singleton.1 hb
      rw [h.lastStop, Option.map_eq_some_iff] at hlast
      obtain ⟨e, he, rfl⟩ := hlast
      obtain ⟨front, rfl⟩ := List.getLast?_eq_some_iff.1 he
      rcases c.nextLine_cases e.2 with hend | ⟨hbehind, hstarts⟩
      · -- The end of the text lies behind the line of every declaration.
        have := hline d.1
        omega
      · refine ⟨hstarts, front, e, d, [], by simp, hbehind, ?_⟩
        exact hle.trans (c.lineStart_le d.1)

theorem Separated.pack (h : Separated c done p)
    (hline : ∀ offset, c.lineStart offset < c.mask.size) (d : Nat × Nat) :
    Separated c (done ++ [d]) (c.pack p d) where
  lastStop := by
    rw [List.getLast?_concat]
    rfl
  separates := by
    intro hused
    by_cases hlong : c.settings.limit < d.2 - d.1
    · simp only [Cutter.pack, if_pos hlong] at hused ⊢
      -- No cut was found, so that the boundaries are those from making room.
      obtain ⟨hroom, hcuts⟩ := usedScan_addCuts hused
      simp only [addCuts, hcuts, List.append_nil]
      exact h.makeRoom hline d hroom
    · simp only [Cutter.pack, if_neg hlong] at hused ⊢
      exact h.makeRoom hline d hused

theorem Separated.foldl_pack (h : Separated c done p)
    (hline : ∀ offset, c.lineStart offset < c.mask.size) (ds : List (Nat × Nat)) :
    Separated c (done ++ ds) (ds.foldl c.pack p) := by
  induction ds generalizing done p with
  | nil => simpa using h
  | cons d ds ih =>
    have hnext := ih (h.pack hline d)
    rw [List.append_assoc] at hnext
    exact hnext

end Packing

/-! ### The plan of a file -/

/-- All declarations packed and the rest cut, the boundaries ascend, and the last piece is small
enough. -/
theorem ascends_packed (hc : c.Ordered) (hline : ∀ offset, c.lineStart offset < c.mask.size)
    {declarations : List (Nat × Nat)} (hstop : ∀ d ∈ declarations, d.2 ≤ c.mask.size) :
    Ascends c.mask.size (c.packed declarations).boundaries (c.packed declarations).pieceStart ∧
      c.mask.size - (c.packed declarations).pieceStart ≤ c.settings.limit := by
  have hfold : Ascends c.mask.size (declarations.foldl c.pack {}).boundaries
      (declarations.foldl c.pack {}).pieceStart :=
    Ascends.foldl_pack (ascends_nil c.mask.size) hc hline hstop
  exact ⟨hfold.addCuts hc le_rfl, (divides_cuts hc _ _).lastPiece⟩

theorem separates_of_packed (hline : ∀ offset, c.lineStart offset < c.mask.size)
    {declarations : List (Nat × Nat)} (hused : (c.packed declarations).usedScan = false) :
    ∀ b ∈ (c.packed declarations).boundaries,
      b ∈ c.mask.lineStarts ∧ Separates declarations b := by
  obtain ⟨hfold, hcuts⟩ := Packing.usedScan_addCuts hused
  simp only [packed, Packing.addCuts, hcuts, List.append_nil]
  exact ((Packing.separated_nil c).foldl_pack hline declarations).separates hfold

/-- The boundaries of a plan lie inside the file, in order, and leave a last piece of at most a
chunk. If only whole declarations were packed, they lie at line starts between declarations, and cut
none of them as long as these follow each other. -/
structure Places (settings : Settings.Chunking) (source : Bytes) (declarations : List (Nat × Nat))
    (boundaries : List Nat) (strategy : Strategy) : Prop where
  ascending : boundaries.Pairwise (· < ·)
  inside : ∀ b ∈ boundaries, 0 < b ∧ b < source.length
  lastPiece : source.length - boundaries.getLast?.getD 0 ≤ settings.limit
  between : strategy = .declarations → ∀ b ∈ boundaries,
    source[b - 1]? = some Byte.newline ∧ Separates declarations b
  not_cut : strategy = .declarations → declarations.Pairwise (fun d e => d.2 ≤ e.1) →
    ∀ b ∈ boundaries, ∀ d ∈ declarations, d.2 < b ∨ b ≤ d.1

/-- Boundaries that ascend are placed well if those between whole declarations separate them. -/
theorem Ascends.places {settings : Settings.Chunking} {source : Bytes}
    {declarations : List (Nat × Nat)} {strategy : Strategy}
    (h : Ascends source.length boundaries pieceStart)
    (hlast : source.length - pieceStart ≤ settings.limit)
    (hspans : ∀ d ∈ declarations, d.1 ≤ d.2)
    (hseparates : strategy = .declarations → ∀ b ∈ boundaries,
      b ∈ source.lineStarts ∧ Separates declarations b) :
    Places settings source declarations boundaries strategy where
  ascending := h.ascending.of_cons
  inside b hb := ⟨(List.pairwise_cons.1 h.ascending).1 b hb, h.inside b hb⟩
  lastPiece := by
    have hstart : boundaries.getLast?.getD 0 = pieceStart := by
      simpa [List.getLast?_cons] using h.last
    rwa [hstart]
  between hstrategy b hb := by
    obtain ⟨hline, hbetween⟩ := hseparates hstrategy b hb
    have hpos : 0 < b := (List.pairwise_cons.1 h.ascending).1 b hb
    exact ⟨getElem?_pred_of_mem_lineStarts hline hpos, hbetween⟩
  not_cut hstrategy hordered b hb _ hd := (hseparates hstrategy b hb).2.not_cut hspans hordered hd

/-- **The boundaries of a plan are well placed.** For every text, all settings and every tree over
the text: a plan that splits the text does so at ascending places inside it, and behind the last of
them at most a chunk is left; and if whole declarations were enough, each boundary begins a line
between two of them. -/
theorem plan_places (settings : Settings.Chunking) (source : Bytes) {tree : Option Node}
    (htree : ∀ root ∈ tree, root.Spans source.length) {boundaries : List Nat} {strategy : Strategy}
    (h : (ofMask settings (.ofSource source)).plan tree = .split boundaries strategy) :
    Places settings source ((tree.map Node.topLevelDeclarations).getD []) boundaries strategy := by
  have hc := ordered_ofMask settings (.ofSource source)
  have hsize : (ofMask settings (.ofSource source)).mask.size = source.length :=
    Mask.length_code_ofSource source
  have hspans := Node.spans_declarations htree
  cases splitBy_of_plan_eq h with
  | whole small =>
    rw [hsize] at small
    refine (ascends_nil source.length).places ?_ (fun d hd => (hspans d hd).1) (by simp)
    exact small
  | scan large =>
    have hdivides := divides_cuts hc 0 source.length
    have hascends := (ascends_nil source.length).append hdivides.ascending hdivides.between
    rw [hsize]
    refine hascends.places hdivides.lastPiece (fun d hd => (hspans d hd).1) ?_
    rintro ⟨⟩
  | pack large =>
    have hlarge : settings.limit < source.length := by rwa [hsize] at large
    have hline := lineStart_lt_size settings (settings.limit_pos.trans hlarge)
    obtain ⟨hascends, hlast⟩ :=
      ascends_packed hc hline fun d hd => (hspans d hd).2.trans hsize.ge
    rw [hsize] at hascends hlast
    refine hascends.places hlast (fun d hd => (hspans d hd).1) fun hstrategy => ?_
    rw [← lineStarts_ofMask settings]
    refine separates_of_packed hline ?_
    by_contra hused
    rw [Bool.not_eq_false] at hused
    rw [if_pos hused] at hstrategy
    cases hstrategy

/-- Two classes on a line each. -/
def twoClasses : Bytes := .ofString "class A \x7b \x7d\nclass B \x7b \x7d\n"

def twoClassesTree : Node :=
  .mk { name := "compilation_unit", start := 0, stop := 24 } [
    .mk { name := "class_declaration", start := 0, stop := 11 } [
      .mk { name := "identifier", field := "name", start := 6, stop := 7 } [],
      .mk { name := "declaration_list", field := "body", start := 8, stop := 11 } []],
    .mk { name := "class_declaration", start := 12, stop := 23 } [
      .mk { name := "identifier", field := "name", start := 18, stop := 19 } [],
      .mk { name := "declaration_list", field := "body", start := 20, stop := 23 } []]]

/-- Where a piece holds no more than one class, the text is cut between them. -/
theorem plan_places_twoClasses :
    (∀ root ∈ some twoClassesTree, root.Spans twoClasses.length) ∧
      (ofMask { maxChunkBytes := 12 } (.ofSource twoClasses)).plan (some twoClassesTree) =
        .split [12] .declarations ∧
      twoClassesTree.topLevelDeclarations.Pairwise (fun d e => d.2 ≤ e.1) ∧
      Places { maxChunkBytes := 12 } twoClasses twoClassesTree.topLevelDeclarations [12]
        .declarations := by
  have htree : ∀ root ∈ some twoClassesTree, root.Spans twoClasses.length := by
    rintro root ⟨⟩
    decide +kernel
  have hplan : (ofMask { maxChunkBytes := 12 } (.ofSource twoClasses)).plan (some twoClassesTree) =
      .split [12] .declarations := by decide +kernel
  exact ⟨htree, hplan, by decide +kernel, plan_places _ _ htree hplan⟩

end Cutter

end SymbolAtlas
