import Mathlib.Tactic
import SymbolAtlas.Graph.Pool
import SymbolAtlas.Proofs.Graph.Index

/-!
# Pools, as lists of their items

What every operation on a pool does to the list of its items, for pools in which no number is held
twice, or held and free at once (`Pool.WF`). Looking a number up is then the same as finding it in
the list (`WF.get?_eq_some_iff`), and listing the items by number only rearranges them
(`WF.numbered_perm`).
-/

namespace SymbolAtlas.Pool

variable {α : Type}

/-- No number is held twice, or held and free at once, and all were given out. -/
structure WF (p : Pool α) : Prop where
  nodup : (p.items.map Prod.fst).Nodup
  lt_bound : ∀ e ∈ p.items, e.1 < p.bound
  free_nodup : p.free.Nodup
  free_lt_bound : ∀ n ∈ p.free, n < p.bound
  not_mem_free : ∀ e ∈ p.items, e.1 ∉ p.free

theorem wf_empty : WF ({} : Pool α) where
  nodup := List.nodup_nil
  lt_bound := by simp
  free_nodup := List.nodup_nil
  free_lt_bound := by simp
  not_mem_free := by simp

/-! ### Looking up -/

theorem mem_items_of_get? {p : Pool α} {n : Nat} {a : α} (h : p.get? n = some a) :
    (n, a) ∈ p.items :=
  Index.mem_of_find?_map_snd h

theorem get?_eq_none_iff {p : Pool α} {n : Nat} : p.get? n = none ↔ ∀ e ∈ p.items, e.1 ≠ n := by
  simp [get?]

/-- The first item under a number is the only one. -/
theorem WF.get?_eq_some_iff {p : Pool α} (hp : p.WF) {n : Nat} {a : α} :
    p.get? n = some a ↔ (n, a) ∈ p.items :=
  Index.find?_map_snd_eq_some_iff hp.nodup

theorem WF.isSome_get?_iff {p : Pool α} (hp : p.WF) {n : Nat} :
    (p.get? n).isSome ↔ n ∈ p.items.map Prod.fst := by
  rw [Option.isSome_iff_exists, List.mem_map]
  constructor
  · rintro ⟨a, ha⟩
    exact ⟨(n, a), mem_items_of_get? ha, rfl⟩
  · rintro ⟨⟨m, a⟩, hmem, rfl⟩
    exact ⟨a, hp.get?_eq_some_iff.2 hmem⟩

theorem WF.eq_of_mem {p : Pool α} (hp : p.WF) {n : Nat} {a b : α} (ha : (n, a) ∈ p.items)
    (hb : (n, b) ∈ p.items) : a = b := by
  have h := hp.get?_eq_some_iff.2 ha
  rw [hp.get?_eq_some_iff.2 hb, Option.some.injEq] at h
  exact h.symm

/-- Where items go by their numbers, the others are still found. -/
theorem get?_of_items_eq {p q : Pool α} {gone : Nat → Bool}
    (h : q.items = p.items.filter fun e => !gone e.1) (n : Nat) :
    q.get? n = if gone n then none else p.get? n := by
  simp only [get?, h, List.find?_filter]
  by_cases hn : gone n = true
  · rw [if_pos hn, Option.map_eq_none_iff, List.find?_eq_none]
    intro e _ he
    simp only [Bool.not_eq_true', decide_eq_true_eq] at he
    rw [he.2, hn] at he
    exact absurd he.1 (by simp)
  · rw [if_neg hn]
    congr 2
    funext e
    by_cases he : e.1 = n <;> simp [he, hn]

/-- Where items go by what they are, the others are still found. -/
theorem WF.get?_of_items_eq {p q : Pool α} (hp : p.WF) (keep : α → Bool)
    (h : q.items = p.items.filter fun e => keep e.2) (n : Nat) :
    q.get? n = (p.get? n).filter keep := by
  have hq : (q.items.map Prod.fst).Nodup := by
    rw [h]
    exact hp.nodup.sublist (List.filter_sublist.map Prod.fst)
  refine Option.ext fun a => ?_
  rw [get?, Index.find?_map_snd_eq_some_iff hq, h, List.mem_filter, Option.filter_eq_some_iff,
    hp.get?_eq_some_iff]

/-! ### Adding -/

@[simp] theorem items_add (p : Pool α) (a : α) : (p.add a).items = (p.next, a) :: p.items := rfl

theorem WF.next_fresh {p : Pool α} (hp : p.WF) : ∀ e ∈ p.items, e.1 ≠ p.next := by
  intro e he heq
  cases hfree : p.free with
  | nil =>
    have := hp.lt_bound e he
    rw [next, hfree] at heq
    simp at heq
    omega
  | cons n rest =>
    rw [next, hfree] at heq
    exact hp.not_mem_free e he (by simp [hfree, heq])

theorem WF.add {p : Pool α} (hp : p.WF) (a : α) : (p.add a).WF := by
  cases hfree : p.free with
  | nil =>
    -- The bound grows by one, and the new item takes the number below it.
    have hnext : p.next = p.bound := by simp [next, hfree]
    refine ⟨?_, ?_, ?_, ?_, ?_⟩
    · simpa using ⟨fun b hb => hp.next_fresh _ hb rfl, hp.nodup⟩
    · intro e he
      rcases List.mem_cons.1 he with rfl | he
      · simp [Pool.add, hfree, hnext]
      · have := hp.lt_bound e he
        simp only [Pool.add, hfree, List.isEmpty_nil, if_true]
        omega
    · simp [Pool.add, hfree]
    · simp [Pool.add, hfree]
    · simp [Pool.add, hfree]
  | cons n rest =>
    -- The number freed last is used again, and no item has it.
    have hnext : p.next = n := by simp [next, hfree]
    have hnodup := hp.free_nodup
    rw [hfree, List.nodup_cons] at hnodup
    refine ⟨?_, ?_, ?_, ?_, ?_⟩
    · simpa using ⟨fun b hb => hp.next_fresh _ hb rfl, hp.nodup⟩
    · intro e he
      simp only [Pool.add, hfree, List.isEmpty_cons, Bool.false_eq_true, if_false]
      rcases List.mem_cons.1 he with rfl | he
      · exact hnext ▸ hp.free_lt_bound n (by simp [hfree])
      · exact hp.lt_bound e he
    · simpa [Pool.add, hfree] using hnodup.2
    · intro m hm
      simp only [Pool.add, hfree, List.isEmpty_cons, Bool.false_eq_true, if_false]
      simp only [Pool.add, hfree, List.tail_cons] at hm
      exact hp.free_lt_bound m (by simp [hfree, hm])
    · intro e he
      simp only [Pool.add, hfree, List.tail_cons]
      rcases List.mem_cons.1 he with rfl | he
      · exact hnext ▸ hnodup.1
      · exact fun hm => hp.not_mem_free e he (by simp [hfree, hm])

/-! ### Taking out -/

theorem items_erase (p : Pool α) (n : Nat) :
    (p.erase n).items = p.items.filter fun e => e.1 ≠ n := by
  unfold erase
  split
  case isTrue => rfl
  case isFalse h =>
    have hnone := Option.not_isSome_iff_eq_none.1 h
    rw [List.filter_eq_self.2]
    exact fun e he => by simpa using get?_eq_none_iff.1 hnone e he

theorem WF.erase {p : Pool α} (hp : p.WF) (n : Nat) : (p.erase n).WF := by
  by_cases h : (p.get? n).isSome
  · obtain ⟨a, ha⟩ := Option.isSome_iff_exists.1 h
    have hmem := mem_items_of_get? ha
    have herase : p.erase n =
        { p with items := p.items.filter fun e => e.1 ≠ n, free := n :: p.free } := if_pos h
    rw [herase]
    refine ⟨?_, ?_, ?_, ?_, ?_⟩
    · exact hp.nodup.sublist (List.filter_sublist.map Prod.fst)
    · exact fun e he => hp.lt_bound e (List.mem_of_mem_filter he)
    · exact List.nodup_cons.2 ⟨hp.not_mem_free _ hmem, hp.free_nodup⟩
    · intro m hm
      rcases List.mem_cons.1 hm with rfl | hm
      · exact hp.lt_bound _ hmem
      · exact hp.free_lt_bound m hm
    · intro e he hm
      obtain ⟨hin, hne⟩ := List.mem_filter.1 he
      rcases List.mem_cons.1 hm with heq | hm
      · simp [heq] at hne
      · exact hp.not_mem_free e hin hm
  · have herase : p.erase n = p := if_neg h
    rwa [herase]

theorem items_foldl_erase (p : Pool α) (ns : List Nat) :
    (ns.foldl erase p).items = p.items.filter fun e => e.1 ∉ ns := by
  induction ns generalizing p with
  | nil => simp
  | cons n ns ih =>
    rw [List.foldl_cons, ih, items_erase, List.filter_filter]
    refine List.filter_congr fun e _ => ?_
    by_cases h : e.1 = n <;> simp [h]

theorem WF.foldl_erase {p : Pool α} (hp : p.WF) (ns : List Nat) :
    (ns.foldl Pool.erase p).WF := by
  induction ns generalizing p with
  | nil => exact hp
  | cons n ns ih => exact ih (hp.erase n)

/-! ### Changing -/

theorem map_fst_modify (p : Pool α) (n : Nat) (f : α → α) :
    (p.modify n f).items.map Prod.fst = p.items.map Prod.fst := by
  rw [modify, List.map_map]
  refine List.map_congr_left fun e _ => ?_
  simp only [Function.comp]
  split <;> rfl

theorem WF.modify {p : Pool α} (hp : p.WF) (n : Nat) (f : α → α) : (p.modify n f).WF := by
  have hfst : ∀ e ∈ (p.modify n f).items, ∃ e' ∈ p.items, e'.1 = e.1 := by
    intro e he
    have := List.mem_map_of_mem (f := Prod.fst) he
    rw [map_fst_modify, List.mem_map] at this
    exact this
  refine ⟨?_, ?_, hp.free_nodup, hp.free_lt_bound, ?_⟩
  · rw [map_fst_modify]
    exact hp.nodup
  · intro e he
    obtain ⟨e', he', heq⟩ := hfst e he
    exact heq ▸ hp.lt_bound e' he'
  · intro e he
    obtain ⟨e', he', heq⟩ := hfst e he
    exact heq ▸ hp.not_mem_free e' he'

/-! ### In the order of numbers -/

theorem mem_numbered {p : Pool α} (hp : p.WF) {e : Nat × α} : e ∈ p.numbered ↔ e ∈ p.items := by
  obtain ⟨n, a⟩ := e
  simp only [numbered, List.mem_filterMap, List.mem_range, Option.map_eq_some_iff, Prod.mk.injEq]
  constructor
  · rintro ⟨m, -, b, hb, rfl, rfl⟩
    exact mem_items_of_get? hb
  · intro h
    exact ⟨n, hp.lt_bound _ h, a, hp.get?_eq_some_iff.2 h, rfl, rfl⟩

theorem pairwise_numbered (p : Pool α) : (p.numbered.map Prod.fst).Pairwise (· < ·) := by
  have h : (p.numbered.map Prod.fst).Sublist (List.range p.bound) := by
    have hmap : p.numbered.map Prod.fst =
        (List.range p.bound).filterMap fun n => (p.get? n).map fun _ => n := by
      rw [numbered, List.map_filterMap]
      simp [Option.map_map, Function.comp_def]
    rw [hmap]
    have hfilter : ((List.range p.bound).filterMap fun n => (p.get? n).map fun _ => n) =
        (List.range p.bound).filter fun n => (p.get? n).isSome := by
      rw [← List.filterMap_eq_filter]
      refine List.filterMap_congr fun n _ => ?_
      cases h : p.get? n <;> simp [Option.guard, h]
    rw [hfilter]
    exact List.filter_sublist
  exact List.pairwise_lt_range.sublist h

theorem nodup_numbered (p : Pool α) : (p.numbered.map Prod.fst).Nodup :=
  (pairwise_numbered p).imp fun h => Nat.ne_of_lt h

theorem WF.numbered_perm {p : Pool α} (hp : p.WF) : p.numbered.Perm p.items :=
  (List.perm_ext_iff_of_nodup (nodup_numbered p).of_map hp.nodup.of_map).2 fun _ => mem_numbered hp

/-- Items put in the order of their numbers are the numbered items. -/
theorem WF.numbered_eq {p : Pool α} (hp : p.WF) {l : List (Nat × α)}
    (hl : (l.map Prod.fst).Pairwise (· < ·)) (hmem : ∀ e, e ∈ l ↔ e ∈ p.items) :
    p.numbered = l := by
  have hnodup : (l.map Prod.fst).Nodup := hl.imp Nat.ne_of_lt
  have hperm : p.numbered.Perm l :=
    (List.perm_ext_iff_of_nodup (nodup_numbered p).of_map hnodup.of_map).2
      fun e => (mem_numbered hp).trans (hmem e).symm
  refine hperm.eq_of_pairwise ?_ (List.pairwise_map.1 (pairwise_numbered p))
    (List.pairwise_map.1 hl)
  intro a b _ _ hab hba
  exact absurd hab (Nat.lt_asymm hba)

/-! ### Filling an empty pool -/

/-- Items that are added to an empty pool get their positions for numbers. -/
theorem foldl_add_empty (as : List α) :
    as.foldl add {} =
      { items := (as.zipIdx.map Prod.swap).reverse, free := [], bound := as.length } := by
  induction as using List.reverseRecOn with
  | nil => rfl
  | append_singleton as a ih =>
    rw [List.foldl_append, ih, List.zipIdx_append, List.map_append, List.reverse_append]
    simp [add, next]

theorem wf_foldl_add_empty (as : List α) : (as.foldl add {}).WF := by
  induction as using List.reverseRecOn with
  | nil => exact wf_empty
  | append_singleton as a ih =>
    rw [List.foldl_append]
    exact ih.add a

theorem numbered_foldl_add_empty (as : List α) :
    (as.foldl add {}).numbered = as.zipIdx.map Prod.swap := by
  refine (wf_foldl_add_empty as).numbered_eq ?_ fun e => ?_
  · rw [List.map_map, show Prod.fst ∘ Prod.swap = (Prod.snd : α × Nat → Nat) from rfl,
      List.zipIdx_map_snd]
    exact List.pairwise_lt_range'
  · rw [foldl_add_empty, List.mem_reverse]

end SymbolAtlas.Pool
