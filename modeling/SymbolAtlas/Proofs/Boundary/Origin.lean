import Mathlib.Tactic
import SymbolAtlas.Proofs.Boundary.Choice

/-!
# Where the cuts of a plan come from

The boundaries of a plan are found in three ways (`Cutter.Origin`), of which only one looks at the
mask: a boundary is a ranked line end, or the line after one on which a declaration ends, or, where
no line end was ranked within reach, whatever is at hand.

* `Cutter.makeRoom_cases`, `Cutter.splitBy_of_plan_eq` — all that beginning a new piece, and that
  planning a file, can do.
* `Packing.Sound` — what packing keeps, declaration by declaration.
* `Cutter.origin_of_plan_eq` — the boundaries of a plan.
-/

namespace SymbolAtlas

namespace Cutter

/-- Each cut of a range is the one after its start or after an earlier cut. -/
theorem exists_cut_of_mem_cuts {c : Cutter} {start limit b : Nat} (hb : b ∈ c.cuts start limit) :
    ∃ s ∈ start :: c.cuts start limit, b = c.cut s limit := by
  fun_induction cuts c start limit with
  | case1 start hlong next hnext ih =>
    rcases List.mem_cons.1 hb with rfl | hb
    · exact ⟨start, List.mem_cons_self, rfl⟩
    · obtain ⟨s, hs, heq⟩ := ih hb
      exact ⟨s, List.mem_cons_of_mem _ hs, heq⟩
  | case2 => cases hb
  | case3 => cases hb

/-! ### All cuts -/

/-- How a boundary was found: it is a ranked line end, or the line after one on which a declaration
ends, or a cut after one of the `starts` that was forced because nothing was within reach. -/
inductive Origin (c : Cutter) (declarations : List (Nat × Nat)) (starts : List Nat) (b : Nat) : Prop
  | ranked (k : Candidate) (mem : k ∈ c.candidates) (offset_eq : k.offset = b)
  | declaration (d : Nat × Nat) (mem : d ∈ declarations) (eq : b = c.nextLine d.2)
  | forced (start limit : Nat) (mem : start ∈ starts) (out : c.OutOfReach start limit)
      (eq : b = c.forcedCut start (c.highEdge start limit))

variable {c : Cutter} {declarations : List (Nat × Nat)} {starts : List Nat} {b : Nat}

theorem Origin.mono (h : Origin c declarations starts b) {others : List Nat}
    (hsub : ∀ s ∈ starts, s ∈ others) : Origin c declarations others b := by
  cases h with
  | ranked k mem offset_eq => exact .ranked k mem offset_eq
  | declaration d mem eq => exact .declaration d mem eq
  | forced start limit mem out eq => exact .forced start limit (hsub start mem) out eq

theorem origin_of_mem_cuts (hc : c.Ordered) (declarations : List (Nat × Nat)) {start limit : Nat}
    (hb : b ∈ c.cuts start limit) : Origin c declarations (start :: c.cuts start limit) b := by
  obtain ⟨s, hs, rfl⟩ := exists_cut_of_mem_cuts hb
  rcases cut_cases hc s limit with ⟨k, hbest, heq⟩ | ⟨hout, heq⟩
  · exact .ranked k hbest.mem heq.symm
  · exact .forced s limit hs hout heq

/-- A new piece is begun with the line after the last declaration, if that lies behind the start of
the current piece and not behind the start of the next declaration. -/
theorem makeRoom_cases (c : Cutter) (p : Packing) (start stop : Nat) :
    c.makeRoom p start stop = p ∨
      ∃ lastStop, p.lastStop = some lastStop ∧ p.pieceStart < c.nextLine lastStop ∧
        c.nextLine lastStop ≤ c.lineStart start ∧
        c.makeRoom p start stop =
          { p with
            boundaries := p.boundaries ++ [c.nextLine lastStop]
            pieceStart := c.nextLine lastStop } := by
  rcases p.lastStop.eq_none_or_eq_some with hlast | ⟨lastStop, hlast⟩
  · exact Or.inl (by simp only [makeRoom, hlast])
  · by_cases hroom : (decide (c.settings.limit < c.nextLine stop - p.pieceStart) &&
        decide (p.pieceStart < c.nextLine lastStop) &&
        decide (c.nextLine lastStop ≤ c.lineStart start)) = true
    · have heq : c.makeRoom p start stop =
          { p with
            boundaries := p.boundaries ++ [c.nextLine lastStop]
            pieceStart := c.nextLine lastStop } := by
        simp only [makeRoom, hlast, if_pos hroom]
      simp only [Bool.and_eq_true, decide_eq_true_eq] at hroom
      exact Or.inr ⟨lastStop, hlast, hroom.1.2, hroom.2, heq⟩
    · exact Or.inl (by simp only [makeRoom, hlast, if_neg hroom])

/-- The packing at the end of a file. -/
def packed (c : Cutter) (declarations : List (Nat × Nat)) : Packing :=
  (declarations.foldl c.pack {}).addCuts
    (c.cuts (declarations.foldl c.pack {}).pieceStart c.mask.size)

/-- How a file comes to be split: it fits into one piece, or it has no declarations, or these are
packed. -/
inductive SplitBy (c : Cutter) (declarations : List (Nat × Nat)) : List Nat → Strategy → Prop
  | whole (small : c.mask.size ≤ c.settings.limit) : SplitBy c declarations [] .declarations
  | scan (large : c.settings.limit < c.mask.size) :
      SplitBy c declarations (c.cuts 0 c.mask.size) .tokenScan
  | pack (large : c.settings.limit < c.mask.size) :
      SplitBy c declarations (c.packed declarations).boundaries
        (if (c.packed declarations).usedScan then .mixed else .declarations)

theorem splitBy_of_plan_eq {tree : Option Node} {boundaries : List Nat} {strategy : Strategy}
    (h : c.plan tree = .split boundaries strategy) :
    SplitBy c ((tree.map Node.topLevelDeclarations).getD []) boundaries strategy := by
  simp only [plan] at h
  split at h
  case isTrue hsmall =>
    obtain ⟨rfl, rfl⟩ := Plan.split.inj h
    exact .whole hsmall
  case isFalse hlarge =>
    rw [Nat.not_le] at hlarge
    split at h
    case isTrue =>
      obtain ⟨rfl, rfl⟩ := Plan.split.inj h
      exact .scan hlarge
    case isFalse =>
      split at h
      case isTrue => cases h
      case isFalse =>
        obtain ⟨rfl, rfl⟩ := Plan.split.inj h
        exact .pack hlarge

namespace Packing

/-- The boundaries so far have an origin, and the current piece begins at one of them or with the
file. -/
structure Sound (c : Cutter) (declarations : List (Nat × Nat)) (p : Packing) : Prop where
  origin : ∀ b ∈ p.boundaries, Origin c declarations (0 :: p.boundaries) b
  pieceStart : p.pieceStart ∈ 0 :: p.boundaries
  lastStop : ∀ stop ∈ p.lastStop, ∃ d ∈ declarations, d.2 = stop

theorem sound_empty (c : Cutter) (declarations : List (Nat × Nat)) : Sound c declarations {} where
  origin := by simp
  pieceStart := List.mem_cons_self
  lastStop := by simp

variable {p : Packing}

theorem Sound.addCuts (h : Sound c declarations p) (hc : c.Ordered) (limit : Nat) :
    Sound c declarations (p.addCuts (c.cuts p.pieceStart limit)) where
  origin b hb := by
    rcases List.mem_append.1 hb with hb | hb
    · refine (h.origin b hb).mono fun s hs => ?_
      exact List.cons_subset_cons 0 (List.subset_append_left _ _) hs
    · refine (origin_of_mem_cuts hc declarations hb).mono fun s hs => ?_
      rcases List.mem_cons.1 hs with rfl | hs
      · exact List.cons_subset_cons 0 (List.subset_append_left _ _) h.pieceStart
      · exact List.mem_cons_of_mem _ (List.mem_append_right _ hs)
  pieceStart := by
    cases hlast : (c.cuts p.pieceStart limit).getLast? with
    | none =>
      simp only [Packing.addCuts, hlast, Option.getD_none]
      exact List.cons_subset_cons 0 (List.subset_append_left _ _) h.pieceStart
    | some last =>
      simp only [Packing.addCuts, hlast, Option.getD_some]
      exact List.mem_cons_of_mem _ (List.mem_append_right _ (List.mem_of_getLast? hlast))
  lastStop := h.lastStop

theorem Sound.makeRoom (h : Sound c declarations p) (start stop : Nat) :
    Sound c declarations (c.makeRoom p start stop) := by
  rcases c.makeRoom_cases p start stop with heq | ⟨lastStop, hlast, -, -, heq⟩
  · rw [heq]
    exact h
  · obtain ⟨d, hd, hstop⟩ := h.lastStop lastStop hlast
    rw [heq]
    refine ⟨fun b hb => ?_, ?_, h.lastStop⟩
    · rcases List.mem_append.1 hb with hb | hb
      · refine (h.origin b hb).mono fun s hs => ?_
        exact List.cons_subset_cons 0 (List.subset_append_left _ _) hs
      · exact .declaration d hd (hstop ▸ List.mem_singleton.1 hb)
    · exact List.mem_cons_of_mem _ (List.mem_append_right _ (List.mem_singleton_self _))

theorem Sound.pack (h : Sound c declarations p) (hc : c.Ordered) {d : Nat × Nat}
    (hd : d ∈ declarations) : Sound c declarations (c.pack p d) := by
  obtain ⟨start, stop⟩ := d
  have hroom := h.makeRoom start stop
  have hcut : Sound c declarations
      (if c.settings.limit < stop - start then
        (c.makeRoom p start stop).addCuts (c.cuts (c.makeRoom p start stop).pieceStart stop)
      else c.makeRoom p start stop) := by
    split
    · exact hroom.addCuts hc stop
    · exact hroom
  refine ⟨hcut.origin, hcut.pieceStart, fun s hs => ?_⟩
  obtain rfl := Option.mem_some_iff.1 hs
  exact ⟨_, hd, rfl⟩

theorem Sound.foldl_pack (h : Sound c declarations p) (hc : c.Ordered) {ds : List (Nat × Nat)}
    (hds : ∀ d ∈ ds, d ∈ declarations) : Sound c declarations (ds.foldl c.pack p) := by
  induction ds generalizing p with
  | nil => exact h
  | cons d ds ih =>
    obtain ⟨hd, hds⟩ := List.forall_mem_cons.1 hds
    exact ih (h.pack hc hd) hds

end Packing

/-- Every boundary of a plan has an origin. -/
theorem origin_of_plan_eq (hc : c.Ordered) {tree : Node} {boundaries : List Nat}
    {strategy : Strategy} (h : c.plan (some tree) = .split boundaries strategy) :
    ∀ b ∈ boundaries, Origin c tree.topLevelDeclarations (0 :: boundaries) b := by
  cases splitBy_of_plan_eq h with
  | whole => simp
  | scan => exact fun b hb => origin_of_mem_cuts hc _ hb
  | pack =>
    have hpacked := (Packing.sound_empty c tree.topLevelDeclarations).foldl_pack hc fun _ => id
    exact (hpacked.addCuts hc c.mask.size).origin

end Cutter

end SymbolAtlas
