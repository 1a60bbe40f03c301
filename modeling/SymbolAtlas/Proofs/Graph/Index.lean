import Mathlib.Tactic
import SymbolAtlas.Graph.Index

/-!
# Indexes, as maps

What looking up gives after every change of an index. An index is `Keyed` if no key stands in it
twice; then it is known by what looking up gives (`Keyed.find?_eq_some_iff`). `list` is the view of
an index of lists, and `Full` says that no list in it is empty.
-/

namespace SymbolAtlas.Index

variable {κ β : Type} [DecidableEq κ]

/-- No key stands in the index twice. -/
def Keyed (ix : Index κ β) : Prop := (ix.entries.map Prod.fst).Nodup

omit [DecidableEq κ] in
theorem keyed_empty : Keyed ({} : Index κ β) := List.nodup_nil

/-- In a list of pairs, the first value under a key stands there under that key. -/
theorem mem_of_find?_map_snd {l : List (κ × β)} {key : κ} {value : β}
    (h : (l.find? fun e => e.1 = key).map Prod.snd = some value) : (key, value) ∈ l := by
  obtain ⟨⟨k, b⟩, hfind, rfl⟩ := Option.map_eq_some_iff.1 h
  obtain rfl : k = key := by simpa using List.find?_some hfind
  exact List.mem_of_find?_eq_some hfind

/-- Where no key stands twice, the first value under a key is the only one. -/
theorem find?_map_snd_eq_some_iff {l : List (κ × β)} (hl : (l.map Prod.fst).Nodup) {key : κ}
    {value : β} :
    (l.find? fun e => e.1 = key).map Prod.snd = some value ↔ (key, value) ∈ l := by
  refine ⟨mem_of_find?_map_snd, fun hmem => ?_⟩
  cases hfind : (l.find? fun e => e.1 = key).map Prod.snd with
  | none =>
    rw [Option.map_eq_none_iff, List.find?_eq_none] at hfind
    exact absurd (decide_eq_true rfl) (hfind _ hmem)
  | some b =>
    have hpair := List.inj_on_of_nodup_map hl (mem_of_find?_map_snd hfind) hmem rfl
    rw [Prod.mk.injEq] at hpair
    rw [hpair.2]

theorem Keyed.find?_eq_some_iff {ix : Index κ β} (hix : ix.Keyed) {key : κ} {value : β} :
    ix.find? key = some value ↔ (key, value) ∈ ix.entries :=
  find?_map_snd_eq_some_iff hix

@[simp] theorem find?_empty (key : κ) : ({} : Index κ β).find? key = none := rfl

theorem Keyed.erase {ix : Index κ β} (hix : ix.Keyed) (key : κ) : (ix.erase key).Keyed :=
  hix.sublist (List.filter_sublist.map Prod.fst)

theorem Keyed.insert {ix : Index κ β} (hix : ix.Keyed) (key : κ) (value : β) :
    (ix.insert key value).Keyed := by
  rw [Keyed, Index.insert, List.map_append, List.nodup_append]
  refine ⟨hix.erase key, List.nodup_singleton _, ?_⟩
  intro a ha b hb
  obtain ⟨e, he, rfl⟩ := List.mem_map.1 ha
  obtain rfl : b = key := by simpa using hb
  simpa using (List.mem_filter.1 he).2

omit [DecidableEq κ] in
theorem Keyed.keep {ix : Index κ β} (hix : ix.Keyed) (p : β → Bool) : (ix.keep p).Keyed :=
  hix.sublist (List.filter_sublist.map Prod.fst)

theorem find?_insert (ix : Index κ β) (key other : κ) (value : β) :
    (ix.insert key value).find? other = if other = key then some value else ix.find? other := by
  split
  case isTrue h => rw [h, find?_insert_self]
  case isFalse h => exact find?_insert_of_ne ix value h

theorem find?_erase (ix : Index κ β) (key other : κ) :
    (ix.erase key).find? other = if other = key then none else ix.find? other := by
  split
  case isTrue h => rw [h, find?_erase_self]
  case isFalse h => exact find?_erase_of_ne ix h

theorem Keyed.find?_keep {ix : Index κ β} (hix : ix.Keyed) {p : β → Bool} {key : κ} {value : β} :
    (ix.keep p).find? key = some value ↔ ix.find? key = some value ∧ p value := by
  rw [(hix.keep p).find?_eq_some_iff, hix.find?_eq_some_iff]
  exact List.mem_filter

theorem Keyed.find?_keep_eq {ix : Index κ β} (hix : ix.Keyed) (p : β → Bool) (key : κ) :
    (ix.keep p).find? key = (ix.find? key).filter p := by
  refine Option.ext fun value => ?_
  rw [hix.find?_keep, Option.filter_eq_some_iff]

/-! ### Indexes of lists -/

/-- No list in the index is empty. -/
def Full (ix : Index κ (List β)) : Prop := ∀ key, ix.find? key ≠ some []

theorem full_empty : Full ({} : Index κ (List β)) := by
  intro key h
  cases h

theorem list_insert (ix : Index κ (List β)) (key other : κ) (items : List β) :
    (ix.insert key items).list other = if other = key then items else ix.list other := by
  rw [list, find?_insert]
  split <;> rfl

theorem list_erase (ix : Index κ (List β)) (key other : κ) :
    (ix.erase key).list other = if other = key then [] else ix.list other := by
  rw [list, find?_erase]
  split <;> rfl

theorem Keyed.add {ix : Index κ (List β)} (hix : ix.Keyed) (key : κ) (item : β) :
    (ix.add key item).Keyed :=
  hix.insert key _

theorem list_add (ix : Index κ (List β)) (key other : κ) (item : β) :
    (ix.add key item).list other =
      if other = key then ix.list other ++ [item] else ix.list other := by
  rw [add, list_insert]
  split
  case isTrue h => rw [h]
  case isFalse => rfl

theorem Full.add {ix : Index κ (List β)} (hix : ix.Full) (key : κ) (item : β) :
    (ix.add key item).Full := by
  intro other h
  rw [Index.add, find?_insert] at h
  split at h
  · simp at h
  · exact hix other h

section

variable [DecidableEq β]

/-- Taking an item out replaces the list by what is left of it, or erases the key. -/
theorem remove_cases (ix : Index κ (List β)) (key : κ) (item : β) :
    (ix.remove key item = ix ∧ ix.list key = []) ∨
    (ix.remove key item = ix.erase key ∧ (ix.list key).filter (· ≠ item) = []) ∨
    (ix.remove key item = ix.insert key ((ix.list key).filter (· ≠ item)) ∧
      (ix.list key).filter (· ≠ item) ≠ []) := by
  cases hfind : ix.find? key with
  | none => exact Or.inl ⟨by simp only [remove, hfind], by simp [list, hfind]⟩
  | some items =>
    have hlist : ix.list key = items := by simp [list, hfind]
    rw [hlist]
    cases hrest : items.filter (· ≠ item) with
    | nil => exact Or.inr (Or.inl ⟨by simp only [remove, hfind, hrest], rfl⟩)
    | cons b rest =>
      exact Or.inr (Or.inr ⟨by simp only [remove, hfind, hrest], List.cons_ne_nil b rest⟩)

theorem list_remove (ix : Index κ (List β)) (key other : κ) (item : β) :
    (ix.remove key item).list other =
      if other = key then (ix.list other).filter (· ≠ item) else ix.list other := by
  by_cases hk : other = key
  · subst hk
    rw [if_pos rfl]
    obtain ⟨h, hnil⟩ | ⟨h, hnil⟩ | ⟨h, -⟩ := remove_cases ix other item
    · rw [h, hnil]
      rfl
    · rw [h, list_erase, if_pos rfl, hnil]
    · rw [h, list_insert, if_pos rfl]
  · rw [if_neg hk]
    obtain ⟨h, -⟩ | ⟨h, -⟩ | ⟨h, -⟩ := remove_cases ix key item
    · rw [h]
    · rw [h, list_erase, if_neg hk]
    · rw [h, list_insert, if_neg hk]

theorem Keyed.remove {ix : Index κ (List β)} (hix : ix.Keyed) (key : κ) (item : β) :
    (ix.remove key item).Keyed := by
  obtain ⟨h, -⟩ | ⟨h, -⟩ | ⟨h, -⟩ := remove_cases ix key item
  · rwa [h]
  · exact h ▸ hix.erase key
  · exact h ▸ hix.insert key _

theorem Full.remove {ix : Index κ (List β)} (hix : ix.Full) (key : κ) (item : β) :
    (ix.remove key item).Full := by
  intro other hother
  obtain ⟨h, -⟩ | ⟨h, -⟩ | ⟨h, hne⟩ := remove_cases ix key item
  · exact hix other (h ▸ hother)
  · rw [h, find?_erase] at hother
    split at hother
    · cases hother
    · exact hix other hother
  · rw [h, find?_insert] at hother
    split at hother
    · exact hne (Option.some.inj hother)
    · exact hix other hother

end

end SymbolAtlas.Index
