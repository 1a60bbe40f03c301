import Mathlib.Tactic
import SymbolAtlas.Proofs.Record.Combined

/-!
# Exports keep their symbols

An export names a symbol. When findings are merged, a record of that symbol may be given up for
another one of the same name and kind, and private symbols may be left out afterwards. The export
must not lose its symbol on the way.

`Findings.Offers` says that every export has its symbol and that exported symbols are neither
private nor without a signature. Merging keeps this (`Findings.merge_offers`), since of two records
the poorer one is given up: a private record has no export to its credit, so it cannot win over an
exported one (`Symbol.isExported_join`).
-/

namespace SymbolAtlas

/-! ### Two records of one symbol -/

theorem Visibility.wider_ne_owner {a b : Visibility} (h : a ≠ .owner ∨ b ≠ .owner) :
    a.wider b ≠ .owner := by
  cases a <;> cases b <;> simp [wider, rank] at h ⊢

namespace Symbol

/-- Others can see the symbol, and it tells them how to use it. -/
def IsShown (s : Symbol) : Prop := s.visibility ≠ .owner ∧ s.hasSignature

theorem hasSignature_union (a b : Symbol) :
    (a.union b).hasSignature = (a.hasSignature || b.hasSignature) := by
  by_cases h : (!a.hasSignature && b.hasSignature) = true
  · have hsignature : (a.union b).signature = b.signature := if_pos h
    rw [Bool.and_eq_true, Bool.not_eq_true'] at h
    rw [hasSignature_congr hsignature, h.1, h.2]
    rfl
  · have hsignature : (a.union b).signature = a.signature := if_neg h
    rw [hasSignature_congr hsignature]
    cases ha : a.hasSignature <;> simp_all

/-- One piece that is shown is enough. -/
theorem isShown_union {a b : Symbol} (h : a.IsShown ∨ b.IsShown) : (a.union b).IsShown := by
  constructor
  · exact Visibility.wider_ne_owner (h.imp And.left And.left)
  · rw [hasSignature_union, Bool.or_eq_true]
    exact h.imp And.right And.right

/-- Two records are united, or the one is kept that is not the poorer. -/
theorem join_cases (a b : Symbol) :
    a.join b = a.union b ∨ (a.join b = b ∧ a.isPoorer b = true) ∨
      (a.join b = a ∧ a.isPoorer b = false) := by
  unfold join
  split
  · exact Or.inl rfl
  · split
    case isTrue h => exact Or.inr (Or.inl ⟨rfl, h⟩)
    case isFalse h => exact Or.inr (Or.inr ⟨rfl, Bool.eq_false_iff.2 h⟩)

/-- Only an exported record can tell more than one with a signature and an export. -/
theorem isExported_of_isPoorer {a b : Symbol} (hsignature : a.hasSignature) (ha : a.isExported)
    (h : a.isPoorer b) : b.isExported := by
  by_contra hb
  unfold isPoorer at h
  cases hs : b.hasSignature <;> simp_all

/-- Only an exported record does not tell less than one with a signature and an export. -/
theorem isExported_of_not_isPoorer {a b : Symbol} (hsignature : b.hasSignature)
    (hb : b.isExported) (h : a.isPoorer b = false) : a.isExported := by
  by_contra ha
  unfold isPoorer at h
  cases hs : a.hasSignature <;> simp_all

/-- The record is shown if it is exported. -/
def IsFit (s : Symbol) : Prop := s.isExported → s.IsShown

section

variable {a b : Symbol}

theorem IsFit.join (ha : a.IsFit) (hb : b.IsFit) : (a.join b).IsFit := by
  intro hexported
  rcases join_cases a b with heq | ⟨heq, -⟩ | ⟨heq, -⟩
  · rw [heq] at hexported ⊢
    have h : a.isExported = true ∨ b.isExported = true := by simpa [Symbol.union] using hexported
    exact isShown_union (h.imp ha hb)
  · rw [heq] at hexported ⊢
    exact hb hexported
  · rw [heq] at hexported ⊢
    exact ha hexported

/-- No export gets lost. -/
theorem isExported_join (ha : a.IsFit) (hb : b.IsFit) :
    (a.join b).isExported = (a.isExported || b.isExported) := by
  rcases join_cases a b with heq | ⟨heq, hpoorer⟩ | ⟨heq, hpoorer⟩
  · rw [heq]
    rfl
  · rw [heq]
    cases hexported : a.isExported with
    | false => rfl
    | true => exact isExported_of_isPoorer (ha hexported).2 hexported hpoorer
  · rw [heq]
    cases hexported : b.isExported with
    | false => exact (Bool.or_false _).symm
    | true =>
      rw [isExported_of_not_isPoorer (hb hexported).2 hexported hpoorer]
      rfl

end

/-- The merged record of a symbol is exported if one of its records is, and then it is shown. -/
theorem represents_exported (all : List Symbol) :
    Keyed.Represents
      (fun group s => (∀ t ∈ group, t.IsFit) → s.IsFit ∧ s.isExported = group.any Symbol.isExported)
      key all (Keyed.merge key join all) := by
  refine Keyed.represents_merge keepsKey_join ?_ ?_ all
  · intro s hfit
    exact ⟨hfit s List.mem_cons_self, by simp⟩
  · intro group a b _ hgroup hfit
    obtain ⟨ha, hexported⟩ := hgroup fun t ht => hfit t (List.mem_append_left _ ht)
    have hb : b.IsFit := hfit b (by simp)
    refine ⟨ha.join hb, ?_⟩
    rw [isExported_join ha hb, hexported]
    simp

end Symbol

/-! ### Findings -/

namespace Findings

/-- Every export has its symbol, and exported symbols are neither private nor without signature. -/
structure Offers (f : Findings) : Prop where
  declared : ∀ e ∈ f.exports, ∃ s ∈ f.symbols, s.isExported ∧
    s.qualifiedName = e.qualifiedName ∧ s.kind = e.kind
  not_private : ∀ s ∈ f.symbols, s.isExported → s.visibility ≠ .owner
  signed : ∀ s ∈ f.symbols, s.isExported → s.hasSignature

instance (f : Findings) : Decidable f.Offers :=
  decidable_of_iff
    ((∀ e ∈ f.exports, ∃ s ∈ f.symbols, s.isExported ∧
        s.qualifiedName = e.qualifiedName ∧ s.kind = e.kind) ∧
      (∀ s ∈ f.symbols, s.isExported → s.visibility ≠ .owner) ∧
      ∀ s ∈ f.symbols, s.isExported → s.hasSignature)
    ⟨fun h => ⟨h.1, h.2.1, h.2.2⟩, fun h => ⟨h.declared, h.not_private, h.signed⟩⟩

variable {f : Findings} {parts : List Findings}

theorem Offers.isFit (h : f.Offers) {s : Symbol} (hs : s ∈ f.symbols) : s.IsFit := fun hexported =>
  ⟨h.not_private s hs hexported, h.signed s hs hexported⟩

/-- What a merged symbol is made of is fit. -/
theorem isFit_of_mem_flatMap (h : ∀ f ∈ parts, f.Offers) {s : Symbol}
    (hs : s ∈ parts.flatMap (·.symbols)) : s.IsFit := by
  obtain ⟨f, hf, hs⟩ := List.mem_flatMap.1 hs
  exact (h f hf).isFit hs

theorem Offers.isFit_merge (h : ∀ f ∈ parts, f.Offers) {s : Symbol}
    (hs : s ∈ (merge parts).symbols) : s.IsFit := by
  rw [symbols_merge] at hs
  exact ((Symbol.represents_exported _).stands s hs fun _ ht =>
    isFit_of_mem_flatMap h (List.mem_of_mem_filter ht)).1

/-- A symbol exported by one of the findings is exported by the merged ones. -/
theorem Offers.exists_mem_merge (h : ∀ f ∈ parts, f.Offers) {s : Symbol}
    (hs : s ∈ parts.flatMap (·.symbols)) (hexported : s.isExported) :
    ∃ t ∈ (merge parts).symbols, t.isExported ∧ t.key = s.key := by
  have hmerged := Symbol.represents_exported (parts.flatMap (·.symbols))
  have hkey := (Keyed.mem_map_key_merge Symbol.keepsKey_join).2
    (List.mem_map_of_mem (f := Symbol.key) hs)
  rw [symbols_merge]
  obtain ⟨t, ht, hts⟩ := List.mem_map.1 hkey
  obtain ⟨-, hany⟩ := hmerged.stands t ht fun u hu =>
    isFit_of_mem_flatMap h (List.mem_of_mem_filter hu)
  refine ⟨t, ht, ?_, hts⟩
  rw [hany, List.any_eq_true]
  exact ⟨s, List.mem_filter.2 ⟨hs, by simp [hts]⟩, hexported⟩

/-- A merged export has the name and the kind of an export of one of the findings. -/
theorem exists_export_of_mem_merge {e : Export} (he : e ∈ (merge parts).exports) :
    ∃ f ∈ parts, ∃ e' ∈ f.exports, e'.qualifiedName = e.qualifiedName ∧ e'.kind = e.kind := by
  rw [exports_merge] at he
  obtain ⟨e', hhead, heq⟩ :=
    Option.map_eq_some_iff.1 ((Export.represents_merge _).stands e he).first
  have hmem := List.mem_of_mem_filter (List.mem_of_head? hhead)
  obtain ⟨f, hf, he'⟩ := List.mem_flatMap.1 hmem
  exact ⟨f, hf, e', he', by rw [← heq], by rw [← heq]⟩

theorem Offers.merge (h : ∀ f ∈ parts, f.Offers) : (merge parts).Offers where
  declared e he := by
    obtain ⟨f, hf, e', he', hname, hkind⟩ := exists_export_of_mem_merge he
    obtain ⟨s, hs, hexported, hsname, hskind⟩ := (h f hf).declared e' he'
    obtain ⟨t, ht, htexported, hkey⟩ :=
      Offers.exists_mem_merge h (List.mem_flatMap.2 ⟨f, hf, hs⟩) hexported
    obtain ⟨htname, htkind⟩ := Prod.mk.inj hkey
    exact ⟨t, ht, htexported, htname.trans (hsname.trans hname), htkind.trans (hskind.trans hkind)⟩
  not_private _ hs hexported := (Offers.isFit_merge h hs hexported).1
  signed _ hs hexported := (Offers.isFit_merge h hs hexported).2

/-- Leaving private symbols out takes no symbol from an export. -/
theorem Offers.declared_withoutPrivate (h : f.Offers) {e : Export} (he : e ∈ f.exports) :
    ∃ s ∈ f.withoutPrivate.symbols, s.isExported ∧
      s.qualifiedName = e.qualifiedName ∧ s.kind = e.kind := by
  obtain ⟨s, hs, hexported, hname⟩ := h.declared e he
  have hvisible := h.not_private s hs hexported
  exact ⟨s, List.mem_filter.2 ⟨hs, by simpa using hvisible⟩, hexported, hname⟩

/-- **Exports keep their symbols when findings are merged and private symbols left out.** -/
theorem merge_offers (h : ∀ f ∈ parts, f.Offers) :
    (Findings.merge parts).Offers ∧
      ∀ e ∈ (Findings.merge parts).exports, e ∈ (Findings.merge parts).withoutPrivate.exports ∧
        ∃ s ∈ (Findings.merge parts).withoutPrivate.symbols, s.isExported ∧
          s.qualifiedName = e.qualifiedName ∧ s.kind = e.kind :=
  ⟨Offers.merge h, fun _ he => ⟨he, (Offers.merge h).declared_withoutPrivate he⟩⟩

/-- A long private overload comes first, and again before and after the one that is exported. -/
theorem merge_offers_privateOverload :
    let run (startLine endLine : Nat) (isExported : Bool) (visibility : Visibility) : Symbol :=
      { name := "Run", qualifiedName := "N.A.Run", kind := .method, startLine, endLine, isExported
        visibility, signature := some "void Run()" }
    let hidden : Findings := { symbols := [run 10 40 false .owner, run 70 99 false .owner] }
    let shown : Findings :=
      { symbols := [run 60 61 true .heirs, run 120 200 false .owner]
        exports := [⟨"Run", "N.A.Run", .method, 60⟩] }
    let merged := Findings.merge [hidden, shown]
    (∀ f ∈ [hidden, shown], f.Offers) ∧ merged.symbols = [run 60 61 true .heirs] ∧
      merged.Offers ∧ ∃ s ∈ merged.withoutPrivate.symbols, s.isExported ∧
        s.qualifiedName = "N.A.Run" ∧ s.kind = .method := by
  intro run hidden shown merged
  have h : ∀ f ∈ [hidden, shown], f.Offers := by decide +kernel
  obtain ⟨hoffers, hexports⟩ := merge_offers h
  have hexport : ⟨"Run", "N.A.Run", .method, 60⟩ ∈ merged.exports := by decide +kernel
  exact ⟨h, by decide +kernel, hoffers, (hexports _ hexport).2⟩

end Findings

end SymbolAtlas
