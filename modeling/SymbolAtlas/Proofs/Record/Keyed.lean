import Mathlib.Tactic
import SymbolAtlas.Record.Merge

/-!
# One record per key

Merging as it can be told without an index: each record is combined with the one of its key among
those kept before, or else put at the end (`Keyed.merge`). Nothing here looks at how two records are
combined. All that is needed is `KeepsKey`, that a combined record stays under its key:

* merged records have different keys (`nodup_merge`);
* records with different keys are left as they are (`merge_eq_self`), so that merging them anew
  only replays the first round (`merge_append_left`).
-/

namespace SymbolAtlas

namespace Keyed

variable {α κ : Type} [BEq κ]

/-- Adds a record to those in `kept`: combined with the one of the same key, or else at the end. -/
def insert (key : α → κ) (combine : α → α → α) (x : α) : List α → List α
  | [] => [x]
  | y :: ys => if key y == key x then combine y x :: ys else y :: insert key combine x ys

/-- One record per key, in order of first occurrence. -/
def merge (key : α → κ) (combine : α → α → α) (xs : List α) : List α :=
  xs.foldl (fun kept x => insert key combine x kept) []

variable {key : α → κ} {combine : α → α → α}

/-- Two records of one key are combined to a record of that key. -/
def KeepsKey (key : α → κ) (combine : α → α → α) : Prop :=
  ∀ a b, key a = key b → key (combine a b) = key a

/-! ### One record -/

/-- A record under a known key changes the first record of that key. -/
theorem insert_of_idxOf? {x : α} {kept : List α} {i : Nat}
    (h : (kept.map key).idxOf? (key x) = some i) :
    insert key combine x kept = kept.modify i (combine · x) := by
  induction kept generalizing i with
  | nil => cases h
  | cons y ys ih =>
    rw [List.map_cons, List.idxOf?_cons] at h
    rw [insert]
    split at h
    · next hy =>
      obtain rfl := Option.some.inj h
      rw [if_pos hy]
      rfl
    · next hy =>
      obtain ⟨j, hj, rfl⟩ := Option.map_eq_some_iff.1 h
      rw [if_neg hy, ih hj]
      rfl

section

variable [LawfulBEq κ]

theorem insert_of_not_mem {x : α} {kept : List α} (hx : key x ∉ kept.map key) :
    insert key combine x kept = kept ++ [x] := by
  induction kept with
  | nil => rfl
  | cons y ys ih =>
    rw [List.map_cons, List.mem_cons, not_or] at hx
    rw [insert, if_neg (by simpa using Ne.symm hx.1), ih hx.2, List.cons_append]

/-- Where no key stands twice, a record under a known key changes the one record of that key. -/
theorem insert_of_mem {x : α} {kept : List α} (hkept : (kept.map key).Nodup)
    (hx : key x ∈ kept.map key) :
    insert key combine x kept = kept.map fun y => if key y == key x then combine y x else y := by
  induction kept with
  | nil => cases hx
  | cons y ys ih =>
    rw [List.map_cons, List.nodup_cons] at hkept
    rw [insert, List.map_cons]
    by_cases hy : key y = key x
    · have hrest : ∀ z ∈ ys, ¬ key z = key x := fun z hz hzx =>
        hkept.1 (hy ▸ hzx ▸ List.mem_map_of_mem hz)
      rw [if_pos (beq_iff_eq.2 hy), if_pos (beq_iff_eq.2 hy), List.map_congr_left fun z hz =>
        if_neg (by simpa using hrest z hz), List.map_id']
    · rw [if_neg (by simpa using hy), if_neg (by simpa using hy),
        ih hkept.2 ((List.mem_cons.1 hx).resolve_left (Ne.symm hy))]

theorem insert_first_of_mem {x : α} {kept : List α} (hx : key x ∈ kept.map key) :
    insert key (fun a _ => a) x kept = kept := by
  induction kept with
  | nil => cases hx
  | cons y ys ih =>
    rw [insert]
    split
    · rfl
    · next hy =>
      rw [ih ((List.mem_cons.1 hx).resolve_left fun heq => hy (beq_iff_eq.2 heq.symm))]

/-- A record under a known key changes no key. -/
theorem map_key_insert_of_mem (h : KeepsKey key combine) {x : α} {kept : List α}
    (hx : key x ∈ kept.map key) : (insert key combine x kept).map key = kept.map key := by
  induction kept with
  | nil => cases hx
  | cons y ys ih =>
    rw [insert]
    by_cases hy : key y = key x
    · rw [if_pos (beq_iff_eq.2 hy), List.map_cons, List.map_cons, h y x hy]
    · rw [if_neg (by simpa using hy), List.map_cons, List.map_cons,
        ih ((List.mem_cons.1 hx).resolve_left (Ne.symm hy))]

theorem nodup_insert (h : KeepsKey key combine) (x : α) {kept : List α}
    (hkept : (kept.map key).Nodup) : ((insert key combine x kept).map key).Nodup := by
  by_cases hx : key x ∈ kept.map key
  · rwa [map_key_insert_of_mem h hx]
  · rw [insert_of_not_mem hx, List.map_append]
    exact hkept.append (List.nodup_singleton _) (by simpa using hx)

end

variable (key combine) in
theorem length_insert_le (x : α) (kept : List α) :
    (insert key combine x kept).length ≤ kept.length + 1 := by
  induction kept with
  | nil => simp [insert]
  | cons y ys ih =>
    rw [insert]
    split
    · simp
    · simpa using ih

/-! ### All records -/

variable (key combine) in
theorem length_foldl_insert_le (xs kept : List α) :
    (xs.foldl (fun kept x => insert key combine x kept) kept).length ≤ kept.length + xs.length := by
  induction xs generalizing kept with
  | nil => simp
  | cons x xs ih =>
    have hone := length_insert_le key combine x kept
    have hall := ih (insert key combine x kept)
    simp only [List.foldl_cons, List.length_cons]
    omega

variable (key combine) in
theorem length_merge_le (xs : List α) : (merge key combine xs).length ≤ xs.length := by
  have h := length_foldl_insert_le key combine xs []
  rwa [List.length_nil, Nat.zero_add] at h

theorem merge_concat (xs : List α) (x : α) :
    merge key combine (xs ++ [x]) = insert key combine x (merge key combine xs) := by
  rw [merge, List.foldl_append]
  rfl

theorem merge_append (xs ys : List α) :
    merge key combine (xs ++ ys) =
      ys.foldl (fun kept x => insert key combine x kept) (merge key combine xs) := by
  rw [merge, List.foldl_append]
  rfl

variable [LawfulBEq κ]

theorem nodup_foldl_insert (h : KeepsKey key combine) (xs : List α) {kept : List α}
    (hkept : (kept.map key).Nodup) :
    ((xs.foldl (fun kept x => insert key combine x kept) kept).map key).Nodup := by
  induction xs generalizing kept with
  | nil => exact hkept
  | cons x xs ih => exact ih (nodup_insert h x hkept)

/-- Merged records have different keys. -/
theorem nodup_merge (h : KeepsKey key combine) (xs : List α) :
    ((merge key combine xs).map key).Nodup :=
  nodup_foldl_insert h xs List.nodup_nil

theorem foldl_insert_of_nodup {xs kept : List α} (h : ((kept ++ xs).map key).Nodup) :
    xs.foldl (fun kept x => insert key combine x kept) kept = kept ++ xs := by
  induction xs generalizing kept with
  | nil => simp
  | cons x xs ih =>
    have hx : key x ∉ kept.map key := by
      rw [List.map_append, List.map_cons, List.nodup_append] at h
      exact fun hmem => h.2.2 (key x) hmem (key x) List.mem_cons_self rfl
    rw [List.append_cons] at h ⊢
    rw [List.foldl_cons, insert_of_not_mem hx, ih h]

/-- Records with different keys are left as they are. -/
theorem merge_eq_self {xs : List α} (h : (xs.map key).Nodup) : merge key combine xs = xs :=
  foldl_insert_of_nodup h

/-- Merged records stand for those they were made from. -/
theorem merge_append_left (h : KeepsKey key combine) (xs ys : List α) :
    merge key combine (merge key combine xs ++ ys) = merge key combine (xs ++ ys) := by
  rw [merge_append, merge_append, merge_eq_self (nodup_merge h xs)]

/-- What the first round removes and what the second removes is what one round removes. -/
theorem removed_append_left (h : KeepsKey key combine) (xs ys : List α) :
    (xs.length - (merge key combine xs).length) +
        ((merge key combine xs ++ ys).length -
          (merge key combine (merge key combine xs ++ ys)).length) =
      (xs ++ ys).length - (merge key combine (xs ++ ys)).length := by
  have hfirst := length_merge_le key combine xs
  have hsecond := length_merge_le key combine (merge key combine xs ++ ys)
  rw [merge_append_left h] at hsecond ⊢
  rw [List.length_append] at hsecond
  simp only [List.length_append]
  omega

end Keyed

end SymbolAtlas
