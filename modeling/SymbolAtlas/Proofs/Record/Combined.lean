import Mathlib.Tactic
import SymbolAtlas.Proofs.Record.Grouping

/-!
# What merging makes of each key

Merged findings told without a look at how merging goes about it: for each kind of record, what the
one record of a key has of all records with that key (`Findings.IsMergeOf`).

* a container takes in the lines of all its pieces and the first signature that is not empty, is
  exported if a piece is, and as visible as the widest one (`Symbol.Unites`);
* a dependency is the surest one, and the first of equally sure ones (`Dependency.Wins`);
* an import and an export are the first one with the least line (`Import.Unites`, `Export.Unites`),
  and an import is global if one is; an issue is the first one.

By `Keyed.represents_merge` each of these is a fact about a single record and one about a record
that one more is combined with. `Findings.merge_isMergeOf` puts them together.
-/

namespace SymbolAtlas

/-! ### The least and the greatest of a growing list -/

section

variable {α : Type}

theorem min?_concat [Min α] {l : List α} {m : α} (h : l.min? = some m) (a : α) :
    (l ++ [a]).min? = some (min m a) := by
  cases l with
  | nil => cases h
  | cons x l =>
    rw [List.min?_cons', Option.some.injEq] at h
    rw [List.cons_append, List.min?_cons', List.foldl_append, h]
    rfl

theorem max?_concat [Max α] {l : List α} {m : α} (h : l.max? = some m) (a : α) :
    (l ++ [a]).max? = some (max m a) := by
  cases l with
  | nil => cases h
  | cons x l =>
    rw [List.max?_cons', Option.some.injEq] at h
    rw [List.cons_append, List.max?_cons', List.foldl_append, h]
    rfl

end

/-! ### Symbols -/

theorem Visibility.rank_wider (a b : Visibility) : (a.wider b).rank = max a.rank b.rank := by
  unfold wider
  split <;> omega

namespace Symbol

theorem join_of_isContainer {a : Symbol} (h : a.kind.isContainer) (b : Symbol) :
    a.join b = a.union b := by
  rw [join, h, Bool.true_or, if_pos rfl]

/-- The record has of each of its parts what all the pieces together have. -/
structure Unites (pieces : List Symbol) (s : Symbol) : Prop where
  name : pieces.head?.map Symbol.name = some s.name
  startLine : (pieces.map Symbol.startLine).min? = some s.startLine
  endLine : (pieces.map Symbol.endLine).max? = some s.endLine
  /-- The first signature that is not empty, and otherwise that of the first piece. -/
  signature : ((pieces.find? hasSignature).or pieces.head?).map Symbol.signature = some s.signature
  isExported : s.isExported = pieces.any Symbol.isExported
  visibility : (pieces.map (·.visibility.rank)).max? = some s.visibility.rank

theorem unites_singleton (s : Symbol) : Unites [s] s where
  name := rfl
  startLine := rfl
  endLine := rfl
  signature := by cases h : s.hasSignature <;> simp [h]
  isExported := by simp
  visibility := rfl

theorem hasSignature_congr {a b : Symbol} (h : a.signature = b.signature) :
    a.hasSignature = b.hasSignature := by
  rw [hasSignature, hasSignature, h]

/-- A signature of the united pieces stays, and if there is none the new piece may give one. -/
theorem Unites.signature_union {pieces : List Symbol} {a : Symbol} (h : Unites pieces a)
    (b : Symbol) :
    (((pieces ++ [b]).find? hasSignature).or (pieces ++ [b]).head?).map Symbol.signature =
      some (a.union b).signature := by
  obtain ⟨first, hfirst, hsignature⟩ := Option.map_eq_some_iff.1 h.signature
  have ha : a.hasSignature = first.hasSignature := hasSignature_congr hsignature.symm
  rw [List.find?_append, List.head?_append]
  cases hfind : pieces.find? hasSignature with
  | some s =>
    rw [hfind, Option.some_or, Option.some.injEq] at hfirst
    subst hfirst
    have hs : s.hasSignature = true := List.find?_some hfind
    simp [union, ha, hs, hsignature]
  | none =>
    -- No piece has a signature, not even the first, whose empty one has been kept.
    rw [hfind, Option.none_or] at hfirst
    have hnone : first.hasSignature = false := by
      simpa using List.find?_eq_none.1 hfind first (List.mem_of_head? hfirst)
    cases hb : b.hasSignature <;> simp [union, ha, hnone, hb, hfirst, hsignature]

theorem Unites.union {pieces : List Symbol} {a : Symbol} (h : Unites pieces a) (b : Symbol) :
    Unites (pieces ++ [b]) (a.union b) where
  name := by
    rw [List.head?_append, Option.map_or, h.name]
    rfl
  startLine := by
    rw [List.map_append]
    exact min?_concat h.startLine b.startLine
  endLine := by
    rw [List.map_append]
    exact max?_concat h.endLine b.endLine
  signature := h.signature_union b
  isExported := by
    rw [List.any_append, ← h.isExported]
    simp [Symbol.union]
  visibility := by
    rw [List.map_append]
    exact (max?_concat h.visibility b.visibility.rank).trans
      (congrArg some (Visibility.rank_wider _ _).symm)

/-- Of a container the merged record has all that its pieces have. -/
theorem represents_merge (all : List Symbol) :
    Keyed.Represents (fun pieces s => s.kind.isContainer → Unites pieces s) key all
      (Keyed.merge key join all) := by
  refine Keyed.represents_merge keepsKey_join (fun s _ => unites_singleton s) ?_ all
  intro pieces a b hkey hunites hkind
  -- Both records and the one made of them are of one kind.
  have hjoin : (a.join b).kind = a.kind := congrArg Prod.snd (keepsKey_join a b hkey)
  rw [hjoin] at hkind
  rw [join_of_isContainer hkind]
  exact (hunites hkind).union b

end Symbol

/-! ### Dependencies -/

namespace Dependency

/-- The surest of a group, and the first of equally sure ones. A confidence that is no number cannot
be compared, so it neither gives way to another nor takes its place. -/
structure Wins (group : List Dependency) (d : Dependency) : Prop extends IsSurest group d where
  comparable : group.head? = some d ∨ ∃ first, group.head? = some first ∧
    first.confidence.rank.isSome ∧ d.confidence.rank.isSome

theorem Wins.surer {group : List Dependency} {d : Dependency} (h : Wins group d)
    (e : Dependency) : Wins (group ++ [e]) (d.surer e) where
  toIsSurest := h.toIsSurest.surer e
  comparable := by
    unfold Dependency.surer
    rw [List.head?_append]
    split
    case isTrue hbelow =>
      obtain ⟨x, y, hx, hy, -⟩ := Single.isBelow_iff.1 hbelow
      rcases h.comparable with hhead | ⟨first, hhead, hfirst, -⟩
      · exact Or.inr ⟨d, by simp [hhead], by simp [hx], by simp [hy]⟩
      · exact Or.inr ⟨first, by simp [hhead], hfirst, by simp [hy]⟩
    case isFalse =>
      rcases h.comparable with hhead | ⟨first, hhead, hnumbers⟩
      · exact Or.inl (by simp [hhead])
      · exact Or.inr ⟨first, by simp [hhead], hnumbers⟩

theorem represents_wins (all : List Dependency) :
    Keyed.Represents Wins key all (Keyed.merge key surer all) :=
  Keyed.represents_merge keepsKey_surer (fun d => ⟨isSurest_singleton d, Or.inl rfl⟩)
    (fun _ _ e _ h => h.surer e) all

end Dependency

/-! ### Imports, exports and issues -/

namespace Import

/-- The first import of a group, global if one is, on the least of their lines. -/
structure Unites (group : List Import) (i : Import) : Prop where
  first : group.head?.map (fun f => { f with isGlobal := i.isGlobal, line := i.line }) = some i
  isGlobal : i.isGlobal = group.any Import.isGlobal
  line : (group.map Import.line).min? = some i.line

theorem Unites.join {group : List Import} {a : Import} (h : Unites group a) (b : Import) :
    Unites (group ++ [b]) (a.join b) where
  first := by
    obtain ⟨f, hf, ha⟩ := Option.map_eq_some_iff.1 h.first
    rw [List.head?_append, hf, Import.join, ← ha]
    rfl
  isGlobal := by
    rw [List.any_append, ← h.isGlobal]
    simp [Import.join]
  line := by
    rw [List.map_append]
    exact min?_concat h.line b.line

theorem represents_merge (all : List Import) :
    Keyed.Represents Unites key all (Keyed.merge key join all) :=
  Keyed.represents_merge keepsKey_join (fun _ => ⟨rfl, by simp, rfl⟩)
    (fun _ _ b _ h => h.join b) all

end Import

namespace Export

/-- The first export of a group, on the least of their lines. -/
structure Unites (group : List Export) (e : Export) : Prop where
  first : group.head?.map (fun f => { f with line := e.line }) = some e
  line : (group.map Export.line).min? = some e.line

theorem Unites.join {group : List Export} {a : Export} (h : Unites group a) (b : Export) :
    Unites (group ++ [b]) (a.join b) where
  first := by
    obtain ⟨f, hf, ha⟩ := Option.map_eq_some_iff.1 h.first
    rw [List.head?_append, hf, Export.join, ← ha]
    rfl
  line := by
    rw [List.map_append]
    exact min?_concat h.line b.line

theorem represents_merge (all : List Export) :
    Keyed.Represents Unites qualifiedName all (Keyed.merge qualifiedName join all) :=
  Keyed.represents_merge keepsKey_join (fun _ => ⟨rfl, rfl⟩) (fun _ _ b _ h => h.join b) all

end Export

theorem Issue.represents_merge (all : List Issue) :
    Keyed.Represents (fun group i => group.head? = some i) key all
      (Keyed.merge key (fun a _ => a) all) := by
  refine Keyed.represents_merge keepsKey_first (fun _ => rfl) ?_ all
  intro group a b _ h
  rw [List.head?_append, h, Option.some_or]

/-! ### Findings -/

namespace Findings

/-- The findings have one record for each key of the given ones, in the order in which the keys
first occur, and account for what is gone. -/
structure IsMergeOf (parts : List Findings) (f : Findings) : Prop where
  symbols : Keyed.Represents (fun pieces s => s.kind.isContainer → Symbol.Unites pieces s)
    Symbol.key (parts.flatMap (·.symbols)) f.symbols
  dependencies : Keyed.Represents Dependency.Wins Dependency.key
    (parts.flatMap (·.dependencies)) f.dependencies
  imports : Keyed.Represents Import.Unites Import.key (parts.flatMap (·.imports)) f.imports
  exports : Keyed.Represents Export.Unites Export.qualifiedName
    (parts.flatMap (·.exports)) f.exports
  issues : Keyed.Represents (fun group i => group.head? = some i) Issue.key
    (parts.flatMap (·.issues)) f.issues
  chunksProcessed : f.tally.chunksProcessed = (parts.map (·.tally.chunksProcessed)).sum
  /-- What is left and what was removed make up all there was. -/
  duplicatesRemoved : f.tally.duplicatesRemoved + f.symbols.length + f.dependencies.length =
    (parts.map (·.tally.duplicatesRemoved)).sum + (parts.flatMap (·.symbols)).length +
      (parts.flatMap (·.dependencies)).length

/-- **Merging keeps one record per key, in order of first occurrence, and loses no key.** The tally
tells how many symbols and dependencies are gone. -/
theorem merge_isMergeOf (parts : List Findings) : IsMergeOf parts (merge parts) where
  symbols := symbols_merge parts ▸ Symbol.represents_merge _
  dependencies := dependencies_merge parts ▸ Dependency.represents_wins _
  imports := imports_merge parts ▸ Import.represents_merge _
  exports := exports_merge parts ▸ Export.represents_merge _
  issues := issues_merge parts ▸ Issue.represents_merge _
  chunksProcessed := chunksProcessed_merge parts
  duplicatesRemoved := duplicatesRemoved_merge parts

end Findings

end SymbolAtlas
