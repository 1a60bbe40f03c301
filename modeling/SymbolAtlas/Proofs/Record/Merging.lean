import Mathlib.Tactic
import SymbolAtlas.Proofs.Graph.Index
import SymbolAtlas.Proofs.Record.Keyed

/-!
# Merging is incremental

Merging puts records on shelves, where an index tells the place of each key, and counts those whose
key it finds. The index is never wrong (`Shelf.Holds`), so the shelves hold just what merging the
records by key gives, and the count is what is missing from them (`Findings.merge_eq_grouped`).

What has been merged once can then stand for the findings it was made from: merging it with more
findings gives the same as merging all of them at once, the account of removed duplicates included
(`Findings.merge_merge_append`). With nothing more to merge this says that merging twice changes
nothing.
-/

namespace SymbolAtlas

open Keyed

/-! ### Shelves -/

theorem idxOf?_concat {κ : Type} [BEq κ] (ks : List κ) (a k : κ) :
    (ks ++ [a]).idxOf? k = (ks.idxOf? k).or (if a == k then some ks.length else none) := by
  rw [List.idxOf?, List.findIdx?_append, List.findIdx?_singleton]
  by_cases ha : a == k <;> simp [ha]

namespace Shelf

variable {α κ : Type} [DecidableEq κ] {key : α → κ} {combine : α → α → α} {shelf : Shelf κ α}

theorem put_of_find?_eq_some {x : α} {i : Nat} (h : shelf.index.find? (key x) = some i)
    (found : Nat) :
    put key combine (shelf, found) x =
      ({ shelf with records := shelf.records.modify i (combine · x) }, found + 1) := by
  simp only [put, h]

theorem put_of_find?_eq_none {x : α} (h : shelf.index.find? (key x) = none) (found : Nat) :
    put key combine (shelf, found) x =
      (⟨shelf.records ++ [x], shelf.index.insert (key x) shelf.records.length⟩, found) := by
  simp only [put, h]

variable [BEq κ] {xs : List α}

/-- The shelf holds the given records merged by key, and its index tells where each key stands. -/
structure Holds (key : α → κ) (combine : α → α → α) (xs : List α) (shelf : Shelf κ α) : Prop where
  records : shelf.records = merge key combine xs
  index : ∀ k, shelf.index.find? k = (shelf.records.map key).idxOf? k

theorem holds_empty : Holds key combine [] {} where
  records := rfl
  index _ := rfl

variable [LawfulBEq κ]

/-- One more record is either counted or makes the row longer. -/
theorem Holds.put (hkey : KeepsKey key combine) (h : Holds key combine xs shelf) (found : Nat)
    (x : α) :
    Holds key combine (xs ++ [x]) (put key combine (shelf, found) x).1 ∧
      (put key combine (shelf, found) x).2 + (put key combine (shelf, found) x).1.records.length =
        found + 1 + shelf.records.length := by
  have hfind := h.index (key x)
  cases hplace : (shelf.records.map key).idxOf? (key x) with
  | some i =>
    rw [put_of_find?_eq_some (hfind.trans hplace)]
    have hmem : key x ∈ shelf.records.map key := List.isSome_idxOf?.1 (by rw [hplace]; rfl)
    have hinsert : Keyed.insert key combine x shelf.records =
        shelf.records.modify i (combine · x) := insert_of_idxOf? hplace
    refine ⟨⟨?_, fun k => ?_⟩, ?_⟩
    · rw [merge_concat, ← h.records]
      exact hinsert.symm
    · -- The keys stand where they stood.
      show shelf.index.find? k = ((shelf.records.modify i _).map key).idxOf? k
      rw [← hinsert, map_key_insert_of_mem hkey hmem]
      exact h.index k
    · show found + 1 + (shelf.records.modify i _).length = _
      rw [List.length_modify]
  | none =>
    rw [put_of_find?_eq_none (hfind.trans hplace)]
    have hnew : key x ∉ shelf.records.map key := List.idxOf?_eq_none_iff.1 hplace
    refine ⟨⟨?_, fun k => ?_⟩, ?_⟩
    · rw [merge_concat, ← h.records]
      exact (insert_of_not_mem hnew).symm
    · rw [Index.find?_insert, List.map_append, List.map_singleton, idxOf?_concat]
      by_cases hk : k = key x
      · simp [hk, hplace]
      · have hne : key x ≠ k := fun heq => hk heq.symm
        simp [hk, hne, h.index k]
    · show found + (shelf.records ++ [x]).length = _
      rw [List.length_append, List.length_singleton]
      omega

theorem Holds.foldl_put (hkey : KeepsKey key combine) (h : Holds key combine xs shelf)
    (found : Nat) (ys : List α) :
    Holds key combine (xs ++ ys) (ys.foldl (Shelf.put key combine) (shelf, found)).1 ∧
      (ys.foldl (Shelf.put key combine) (shelf, found)).2 +
          (ys.foldl (Shelf.put key combine) (shelf, found)).1.records.length =
        found + ys.length + shelf.records.length := by
  induction ys generalizing xs shelf found with
  | nil => simpa using h
  | cons y ys ih =>
    obtain ⟨hput, hcount⟩ := h.put hkey found y
    obtain ⟨hall, hcounts⟩ := ih hput (Shelf.put key combine (shelf, found) y).2
    rw [List.append_cons]
    refine ⟨hall, ?_⟩
    rw [List.length_cons]
    exact hcounts.trans (by omega)

end Shelf

/-! ### The five kinds of record -/

theorem Symbol.keepsKey_join : KeepsKey Symbol.key Symbol.join := by
  intro a b hab
  unfold join
  split
  · rfl
  · split
    · exact hab.symm
    · rfl

theorem Dependency.keepsKey_surer : KeepsKey Dependency.key Dependency.surer := by
  intro a b hab
  unfold surer
  split
  · exact hab.symm
  · rfl

theorem Import.keepsKey_join : KeepsKey Import.key Import.join := fun _ _ _ => rfl

theorem Export.keepsKey_join : KeepsKey Export.qualifiedName Export.join := fun _ _ _ => rfl

theorem Issue.keepsKey_first : KeepsKey Issue.key (fun a _ => a) := fun _ _ _ => rfl

namespace Findings

/-! ### The state of merging -/

namespace Merging

/-- The first issue of each key is kept, and the index has the keys of those kept. -/
structure HoldsIssues (xs issues : List Issue) (known : Index (Nat × Nat × String) Unit) :
    Prop where
  kept : issues = Keyed.merge Issue.key (fun a _ => a) xs
  known : ∀ k, (known.find? k).isSome ↔ k ∈ issues.map Issue.key

theorem HoldsIssues.addIssue {xs issues : List Issue} {known : Index (Nat × Nat × String) Unit}
    (h : HoldsIssues xs issues known) (i : Issue) :
    HoldsIssues (xs ++ [i]) (addIssue (issues, known) i).1 (addIssue (issues, known) i).2 := by
  have hknown := h.known i.key
  by_cases hmem : i.key ∈ issues.map Issue.key
  · -- Putting the key in again changes nothing.
    obtain ⟨⟨⟩, hfind⟩ := Option.isSome_iff_exists.1 (hknown.2 hmem)
    have hkept : (Merging.addIssue (issues, known) i).1 = issues := by
      simp [Merging.addIssue, hfind]
    refine ⟨?_, fun k => ?_⟩
    · rw [hkept, merge_concat, ← h.kept, insert_first_of_mem hmem]
    · rw [hkept, ← h.known k]
      show ((known.insert i.key ()).find? k).isSome ↔ _
      rw [Index.find?_insert]
      split
      · next hk => simp [hk, hfind]
      · rfl
  · have hnew : known.find? i.key = none := by simpa using mt hknown.1 hmem
    have hkept : (Merging.addIssue (issues, known) i).1 = issues ++ [i] := by
      simp [Merging.addIssue, hnew]
    refine ⟨?_, fun k => ?_⟩
    · rw [hkept, merge_concat, ← h.kept, insert_of_not_mem hmem]
    · rw [hkept, List.map_append, List.mem_append, ← h.known k]
      show ((known.insert i.key ()).find? k).isSome ↔ _
      rw [Index.find?_insert]
      split
      · next hk => simp [hk]
      · next hk => simp [hk]

theorem HoldsIssues.foldl_addIssue {xs issues : List Issue}
    {known : Index (Nat × Nat × String) Unit} (h : HoldsIssues xs issues known) (ys : List Issue) :
    HoldsIssues (xs ++ ys) (ys.foldl Merging.addIssue (issues, known)).1
      (ys.foldl Merging.addIssue (issues, known)).2 := by
  induction ys generalizing xs issues known with
  | nil => simpa using h
  | cons y ys ih =>
    rw [List.append_cons]
    exact ih (h.addIssue y)

/-- The state of merging after the given parts. -/
structure Holds (parts : List Findings) (m : Merging) : Prop where
  symbols : m.symbols.Holds Symbol.key Symbol.join (parts.flatMap (·.symbols))
  dependencies :
    m.dependencies.Holds Dependency.key Dependency.surer (parts.flatMap (·.dependencies))
  imports : m.imports.Holds Import.key Import.join (parts.flatMap (·.imports))
  exports : m.exports.Holds Export.qualifiedName Export.join (parts.flatMap (·.exports))
  issues : HoldsIssues (parts.flatMap (·.issues)) m.issues m.issueKeys
  chunksProcessed : m.chunksProcessed = (parts.map (·.tally.chunksProcessed)).sum
  /-- What is left and what was removed make up all there was. -/
  removed : m.removed + m.symbols.records.length + m.dependencies.records.length =
    (parts.map (·.tally.duplicatesRemoved)).sum + (parts.flatMap (·.symbols)).length +
      (parts.flatMap (·.dependencies)).length

theorem holds_empty : Holds [] {} where
  symbols := Shelf.holds_empty
  dependencies := Shelf.holds_empty
  imports := Shelf.holds_empty
  exports := Shelf.holds_empty
  issues := ⟨rfl, fun _ => by simp⟩
  chunksProcessed := rfl
  removed := rfl

theorem Holds.addPart {parts : List Findings} {m : Merging} (h : Holds parts m) (part : Findings) :
    Holds (parts ++ [part]) (m.addPart part) := by
  obtain ⟨hsymbols, hsymbolCount⟩ := h.symbols.foldl_put Symbol.keepsKey_join
    (m.removed + part.tally.duplicatesRemoved) part.symbols
  obtain ⟨hdependencies, hdependencyCount⟩ := h.dependencies.foldl_put Dependency.keepsKey_surer
    (part.symbols.foldl (Shelf.put Symbol.key Symbol.join)
      (m.symbols, m.removed + part.tally.duplicatesRemoved)).2 part.dependencies
  obtain ⟨himports, -⟩ := h.imports.foldl_put Import.keepsKey_join 0 part.imports
  obtain ⟨hexports, -⟩ := h.exports.foldl_put Export.keepsKey_join 0 part.exports
  have hissues := h.issues.foldl_addIssue part.issues
  have hremoved := h.removed
  constructor
  case chunksProcessed =>
    rw [List.map_append, List.sum_append, ← h.chunksProcessed]
    rfl
  case removed =>
    simp only [List.map_append, List.sum_append, List.flatMap_append, List.length_append,
      List.map_singleton, List.sum_singleton, List.flatMap_singleton]
    simp only [Merging.addPart]
    omega
  all_goals
    rw [List.flatMap_append, List.flatMap_singleton]
    assumption

theorem holds_foldl_addPart (parts : List Findings) :
    Holds parts (parts.foldl Merging.addPart {}) := by
  induction parts using List.reverseRecOn with
  | nil => exact holds_empty
  | append_singleton parts part ih =>
    rw [List.foldl_append]
    exact ih.addPart part

end Merging

theorem symbols_merge (parts : List Findings) :
    (merge parts).symbols = Keyed.merge Symbol.key Symbol.join (parts.flatMap (·.symbols)) :=
  (Merging.holds_foldl_addPart parts).symbols.records

theorem dependencies_merge (parts : List Findings) :
    (merge parts).dependencies =
      Keyed.merge Dependency.key Dependency.surer (parts.flatMap (·.dependencies)) :=
  (Merging.holds_foldl_addPart parts).dependencies.records

theorem imports_merge (parts : List Findings) :
    (merge parts).imports = Keyed.merge Import.key Import.join (parts.flatMap (·.imports)) :=
  (Merging.holds_foldl_addPart parts).imports.records

theorem exports_merge (parts : List Findings) :
    (merge parts).exports =
      Keyed.merge Export.qualifiedName Export.join (parts.flatMap (·.exports)) :=
  (Merging.holds_foldl_addPart parts).exports.records

theorem issues_merge (parts : List Findings) :
    (merge parts).issues =
      Keyed.merge Issue.key (fun a _ => a) (parts.flatMap (·.issues)) :=
  (Merging.holds_foldl_addPart parts).issues.kept

theorem chunksProcessed_merge (parts : List Findings) :
    (merge parts).tally.chunksProcessed = (parts.map (·.tally.chunksProcessed)).sum :=
  (Merging.holds_foldl_addPart parts).chunksProcessed

/-- What is left and what was removed make up all there was. -/
theorem duplicatesRemoved_merge (parts : List Findings) :
    (merge parts).tally.duplicatesRemoved + (merge parts).symbols.length +
        (merge parts).dependencies.length =
      (parts.map (·.tally.duplicatesRemoved)).sum + (parts.flatMap (·.symbols)).length +
        (parts.flatMap (·.dependencies)).length :=
  (Merging.holds_foldl_addPart parts).removed

/-- Findings merged kind by kind, with a look at all parts at once. -/
def grouped (parts : List Findings) : Findings :=
  let symbols := Keyed.merge Symbol.key Symbol.join (parts.flatMap (·.symbols))
  let dependencies := Keyed.merge Dependency.key Dependency.surer (parts.flatMap (·.dependencies))
  { symbols
    dependencies
    imports := Keyed.merge Import.key Import.join (parts.flatMap (·.imports))
    exports := Keyed.merge Export.qualifiedName Export.join (parts.flatMap (·.exports))
    issues := Keyed.merge Issue.key (fun a _ => a) (parts.flatMap (·.issues))
    tally :=
      { chunksProcessed := (parts.map (·.tally.chunksProcessed)).sum
        duplicatesRemoved :=
          (parts.map (·.tally.duplicatesRemoved)).sum +
            ((parts.flatMap (·.symbols)).length - symbols.length) +
            ((parts.flatMap (·.dependencies)).length - dependencies.length)
        crossChunkReferences := dependencies.countP (isDistant (firstLines symbols)) } }

/-- Merging with indexes and a counter is merging kind by kind. -/
theorem merge_eq_grouped (parts : List Findings) : merge parts = grouped parts := by
  have h := Merging.holds_foldl_addPart parts
  have hremoved := h.removed
  have hsymbols := length_merge_le Symbol.key Symbol.join (parts.flatMap (·.symbols))
  have hdependencies := length_merge_le Dependency.key Dependency.surer
    (parts.flatMap (·.dependencies))
  rw [h.symbols.records, h.dependencies.records] at hremoved
  simp only [merge, grouped, h.symbols.records, h.dependencies.records, h.imports.records,
    h.exports.records, h.issues.kept, h.chunksProcessed, mk.injEq, Tally.mk.injEq, true_and,
    and_true]
  omega

/-- Merging findings that were merged before, together with others, is merging all of them at
once. -/
theorem merge_merge_append (a b : List Findings) : merge ([merge a] ++ b) = merge (a ++ b) := by
  have hsymbols := merge_append_left Symbol.keepsKey_join (a.flatMap (·.symbols))
    (b.flatMap (·.symbols))
  have hdependencies := merge_append_left Dependency.keepsKey_surer (a.flatMap (·.dependencies))
    (b.flatMap (·.dependencies))
  have hsymbolsRemoved := removed_append_left Symbol.keepsKey_join (a.flatMap (·.symbols))
    (b.flatMap (·.symbols))
  have hdependenciesRemoved := removed_append_left Dependency.keepsKey_surer
    (a.flatMap (·.dependencies)) (b.flatMap (·.dependencies))
  simp only [merge_eq_grouped, grouped, List.singleton_append, List.flatMap_cons,
    List.flatMap_append, List.map_cons, List.map_append, List.sum_cons, List.sum_append, mk.injEq,
    Tally.mk.injEq, true_and]
  refine ⟨hsymbols, hdependencies, merge_append_left Import.keepsKey_join _ _,
    merge_append_left Export.keepsKey_join _ _, merge_append_left Issue.keepsKey_first _ _, ?_, ?_⟩
  · -- Both rounds add what they remove to the count they are given.
    omega
  · rw [hsymbols, hdependencies]

end Findings

end SymbolAtlas
