import Mathlib.Tactic
import SymbolAtlas.Proofs.Record.Merging

/-!
# Merging key by key

Merging treats the records of one key apart from all others. So its result can be told group by
group, without a look at the order in which the groups are mixed:

* the first record gathers all records of its key, and the rest is merged by itself (`merge_cons`);
* the keys of the result are the given keys in order of first occurrence (`map_key_merge`), and each
  of its records is the group of its key, combined from the left (`eq_foldl_of_mem_merge`);
* what holds of single records, and is kept when one more record of the key is combined, holds of
  every merged record and its group (`represents_merge`);
* selecting by key commutes with merging (`filter_merge`), and lists without a common key are merged
  one after the other (`merge_append_of_disjoint`).

For dependencies the combined group is its surest record, the first of equally sure ones
(`Dependency.deduplicates_merge`).
-/

namespace SymbolAtlas

namespace Keyed

variable {α κ : Type} [BEq κ] {key : α → κ} {combine : α → α → α}

/-- Induction on a list from which all records of the first one's key are taken out at a time. -/
theorem groupInduction {motive : List α → Prop} (key : α → κ) (nil : motive [])
    (cons : ∀ x xs, motive (xs.filter fun y => !(key y == key x)) → motive (x :: xs))
    (xs : List α) :
    motive xs := by
  match xs with
  | [] => exact nil
  | x :: xs => exact cons x xs (groupInduction key nil cons _)
termination_by xs.length
decreasing_by exact Nat.lt_succ_of_le (List.length_filter_le _ _)

/-! ### The first record and its group -/

omit [BEq κ] in
theorem key_foldl (h : KeepsKey key combine) {x : α} {group : List α}
    (hgroup : ∀ y ∈ group, key y = key x) : key (group.foldl combine x) = key x := by
  induction group generalizing x with
  | nil => rfl
  | cons y group ih =>
    have hxy : key x = key y := (hgroup y List.mem_cons_self).symm
    rw [List.foldl_cons, ih, h x y hxy]
    intro z hz
    rw [h x y hxy, hgroup z (List.mem_cons_of_mem _ hz)]

variable [LawfulBEq κ]

theorem foldl_insert_cons (h : KeepsKey key combine) (xs : List α) (y : α) (kept : List α) :
    xs.foldl (fun kept x => insert key combine x kept) (y :: kept) =
      (xs.filter fun x => key x == key y).foldl combine y ::
        (xs.filter fun x => !(key x == key y)).foldl (fun kept x => insert key combine x kept)
          kept := by
  induction xs generalizing y kept with
  | nil => rfl
  | cons x xs ih =>
    rw [List.foldl_cons, insert]
    by_cases hxy : key y = key x
    · rw [if_pos (beq_iff_eq.2 hxy), ih, h y x hxy]
      simp [hxy]
    · have hyx : ¬ key x = key y := fun heq => hxy heq.symm
      rw [if_neg (by simpa using hxy), ih]
      simp [hyx]

theorem merge_cons (h : KeepsKey key combine) (x : α) (xs : List α) :
    merge key combine (x :: xs) =
      (xs.filter fun y => key y == key x).foldl combine x ::
        merge key combine (xs.filter fun y => !(key y == key x)) :=
  foldl_insert_cons h xs x []

/-! ### Keys, groups and selections -/

/-- The keys stay, each where it occurs first. -/
theorem map_key_merge (h : KeepsKey key combine) (xs : List α) :
    (merge key combine xs).map key = (xs.map key).eraseDups := by
  induction xs using groupInduction key with
  | nil => rfl
  | cons x xs ih =>
    have hfirst : key ((xs.filter fun y => key y == key x).foldl combine x) = key x :=
      key_foldl h fun y hy => by simpa using (List.mem_filter.1 hy).2
    rw [merge_cons h, List.map_cons, hfirst, ih, List.map_cons, List.eraseDups_cons,
      List.filter_map]
    rfl

theorem mem_map_key_merge (h : KeepsKey key combine) {xs : List α} {k : κ} :
    k ∈ (merge key combine xs).map key ↔ k ∈ xs.map key := by
  rw [map_key_merge h, List.mem_eraseDups]

/-- A merged record is made of all records of its key. -/
theorem eq_foldl_of_mem_merge (h : KeepsKey key combine) {xs : List α} {x : α}
    (hx : x ∈ merge key combine xs) :
    ∃ first rest, xs.filter (fun y => key y == key x) = first :: rest ∧
      x = rest.foldl combine first := by
  induction xs using groupInduction key with
  | nil => cases hx
  | cons y xs ih =>
    rw [merge_cons h] at hx
    have hsame : key ((xs.filter fun z => key z == key y).foldl combine y) = key y :=
      key_foldl h fun z hz => by simpa using (List.mem_filter.1 hz).2
    rcases List.mem_cons.1 hx with rfl | hx
    · refine ⟨y, _, ?_, rfl⟩
      rw [hsame]
      exact List.filter_cons_of_pos (beq_self_eq_true (key y))
    · -- The key of `x` is among those left when the group of `y` is taken out.
      have hother : key x ≠ key y := by
        have hkey := List.mem_map_of_mem (f := key) hx
        rw [map_key_merge h, List.mem_eraseDups, List.mem_map] at hkey
        obtain ⟨z, hz, hzx⟩ := hkey
        rw [← hzx]
        simpa using (List.mem_filter.1 hz).2
      obtain ⟨first, rest, hgroup, hfold⟩ := ih hx
      refine ⟨first, rest, ?_, hfold⟩
      rw [List.filter_cons_of_neg (by simpa using Ne.symm hother), ← hgroup, List.filter_filter]
      refine List.filter_congr fun z _ => ?_
      by_cases hz : key z = key x <;> simp [hz, hother]

/-- The second list has one record for each key of the first, in the order in which the keys first
occur there, and each of its records stands, as `Stands` tells, for all records of its key. -/
structure Represents (Stands : List α → α → Prop) (key : α → κ) (all kept : List α) : Prop where
  keys : kept.map key = (all.map key).eraseDups
  stands : ∀ x ∈ kept, Stands (all.filter fun y => key y == key x) x

omit [BEq κ] [LawfulBEq κ] in
theorem stands_foldl {Stands : List α → α → Prop} (h : KeepsKey key combine)
    (hcombine : ∀ group x y, key x = key y → Stands group x → Stands (group ++ [y]) (combine x y))
    {group rest : List α} {x : α} (hx : Stands group x) (hrest : ∀ y ∈ rest, key y = key x) :
    Stands (group ++ rest) (rest.foldl combine x) := by
  induction rest generalizing group x with
  | nil => rwa [List.append_nil]
  | cons y rest ih =>
    have hxy : key x = key y := (hrest y List.mem_cons_self).symm
    rw [List.foldl_cons, List.append_cons]
    refine ih (hcombine group x y hxy hx) fun z hz => ?_
    rw [h x y hxy, hrest z (List.mem_cons_of_mem _ hz)]

/-- What a record combined with one more of its key stands for, all merged records stand for. -/
theorem represents_merge {Stands : List α → α → Prop} (h : KeepsKey key combine)
    (hone : ∀ x, Stands [x] x)
    (hcombine : ∀ group x y, key x = key y → Stands group x → Stands (group ++ [y]) (combine x y))
    (all : List α) : Represents Stands key all (merge key combine all) where
  keys := map_key_merge h all
  stands x hx := by
    obtain ⟨first, rest, hgroup, hfold⟩ := eq_foldl_of_mem_merge h hx
    have hkey : ∀ y ∈ first :: rest, key y = key x := fun y hy => by
      rw [← hgroup] at hy
      simpa using (List.mem_filter.1 hy).2
    have hstands := stands_foldl h hcombine (hone first) fun y hy =>
      (hkey y (List.mem_cons_of_mem _ hy)).trans (hkey first List.mem_cons_self).symm
    rwa [hgroup, hfold]

/-- Selecting records by their key before or after merging is the same. -/
theorem filter_merge (h : KeepsKey key combine) {p : α → Bool}
    (hp : ∀ x y, key x = key y → p x = p y) (xs : List α) :
    (merge key combine xs).filter p = merge key combine (xs.filter p) := by
  induction xs using groupInduction key with
  | nil => rfl
  | cons x xs ih =>
    have hgroup : ∀ y ∈ xs.filter (fun y => key y == key x), key y = key x := fun y hy => by
      simpa using (List.mem_filter.1 hy).2
    have hfirst : p ((xs.filter fun y => key y == key x).foldl combine x) = p x :=
      hp _ _ (key_foldl h hgroup)
    have hrest : (xs.filter fun y => !(key y == key x)).filter p =
        (xs.filter p).filter fun y => !(key y == key x) := by
      simp only [List.filter_filter, Bool.and_comm]
    rw [merge_cons h]
    by_cases hx : p x = true
    · have hkept : (xs.filter p).filter (fun y => key y == key x) =
          xs.filter fun y => key y == key x := by
        rw [List.filter_filter]
        refine List.filter_congr fun y _ => ?_
        by_cases hy : key y = key x
        · simp [hy, hp y x hy, hx]
        · simp [hy]
      rw [List.filter_cons_of_pos (by rw [hfirst, hx]), List.filter_cons_of_pos hx, merge_cons h,
        ih, hrest, hkept]
    · have hnone : xs.filter p = (xs.filter p).filter fun y => !(key y == key x) := by
        refine (List.filter_eq_self.2 fun y hy => ?_).symm
        have hne : key y ≠ key x := fun heq => hx (hp y x heq ▸ (List.mem_filter.1 hy).2)
        simpa using hne
      rw [List.filter_cons_of_neg (by rw [hfirst]; exact hx), List.filter_cons_of_neg hx, ih, hrest,
        ← hnone]

/-! ### Lists without a common key -/

theorem insert_append_of_not_mem {x : α} {kept : List α} (hx : key x ∉ kept.map key)
    (more : List α) : insert key combine x (kept ++ more) = kept ++ insert key combine x more := by
  induction kept with
  | nil => rfl
  | cons y kept ih =>
    rw [List.map_cons, List.mem_cons, not_or] at hx
    rw [List.cons_append, insert, if_neg (by simpa using Ne.symm hx.1), ih hx.2, List.cons_append]

theorem foldl_insert_append {xs kept : List α} (h : (kept.map key).Disjoint (xs.map key))
    (more : List α) :
    xs.foldl (fun kept x => insert key combine x kept) (kept ++ more) =
      kept ++ xs.foldl (fun kept x => insert key combine x kept) more := by
  induction xs generalizing more with
  | nil => rfl
  | cons x xs ih =>
    rw [List.map_cons, List.disjoint_cons_right] at h
    rw [List.foldl_cons, List.foldl_cons, insert_append_of_not_mem h.1, ih h.2]

theorem merge_append_of_disjoint (h : KeepsKey key combine) {xs ys : List α}
    (hdisjoint : (xs.map key).Disjoint (ys.map key)) :
    merge key combine (xs ++ ys) = merge key combine xs ++ merge key combine ys := by
  have hkept : ((merge key combine xs).map key).Disjoint (ys.map key) := by
    rw [map_key_merge h]
    exact fun k hk => hdisjoint (List.mem_eraseDups.1 hk)
  rw [merge_append, ← List.append_nil (merge key combine xs), foldl_insert_append hkept,
    List.append_nil]
  rfl

/-- Lists of which no two have a key in common are merged one after the other. -/
theorem merge_flatMap {β : Type} (h : KeepsKey key combine) {parts : List β} {f : β → List α}
    (hparts : parts.Pairwise fun a b => ((f a).map key).Disjoint ((f b).map key)) :
    merge key combine (parts.flatMap f) = parts.flatMap fun b => merge key combine (f b) := by
  induction parts with
  | nil => rfl
  | cons b parts ih =>
    obtain ⟨hfirst, hparts⟩ := List.pairwise_cons.1 hparts
    have hdisjoint : ((f b).map key).Disjoint ((parts.flatMap f).map key) := by
      intro k hb hk
      rw [List.map_flatMap, List.mem_flatMap] at hk
      obtain ⟨c, hc, hk⟩ := hk
      exact hfirst c hc hb hk
    rw [List.flatMap_cons, List.flatMap_cons, merge_append_of_disjoint h hdisjoint, ih hparts]

end Keyed

/-! ### The surest dependency of a group -/

theorem Single.isBelow_iff {x y : Single} :
    x.isBelow y = true ↔ ∃ a b, x.rank = some a ∧ y.rank = some b ∧ a < b := by
  unfold isBelow
  split
  · next a b ha hb => simp [ha, hb]
  · next hnone =>
    simp only [Bool.false_eq_true, false_iff, not_exists, not_and]
    exact fun a b ha hb => absurd hb (hnone a b ha)

theorem Single.isBelow_trans {x y z : Single} (hxy : x.isBelow y) (hyz : y.isBelow z) :
    x.isBelow z := by
  obtain ⟨a, b, ha, hb, hab⟩ := isBelow_iff.1 hxy
  obtain ⟨b', c, hb', hc, hbc⟩ := isBelow_iff.1 hyz
  obtain rfl := Option.some.inj (hb.symm.trans hb')
  exact isBelow_iff.2 ⟨a, c, ha, hc, hab.trans hbc⟩

namespace Dependency

/-- The dependency is the surest of a group, and the first among equally sure ones. -/
structure IsSurest (group : List Dependency) (d : Dependency) : Prop where
  exists_split : ∃ before after, group = before ++ d :: after ∧
    ∀ e ∈ before, e.confidence.rank ≠ d.confidence.rank
  not_isBelow : ∀ e ∈ group, ¬ d.confidence.isBelow e.confidence

theorem isSurest_singleton (d : Dependency) : IsSurest [d] d where
  exists_split := ⟨[], [], rfl, by simp⟩
  not_isBelow e he := by
    obtain rfl := List.mem_singleton.1 he
    intro h
    obtain ⟨a, b, ha, hb, hab⟩ := Single.isBelow_iff.1 h
    exact absurd (Option.some.inj (ha.symm.trans hb)) hab.ne

/-- One more record takes the place of the surest one just if it is surer. -/
theorem IsSurest.surer {group : List Dependency} {d : Dependency} (h : IsSurest group d)
    (e : Dependency) : IsSurest (group ++ [e]) (d.surer e) := by
  obtain ⟨before, after, rfl, hbefore⟩ := h.exists_split
  unfold Dependency.surer
  split
  · next hbelow =>
    refine ⟨⟨before ++ d :: after, [], by simp, fun b hb hrank => ?_⟩, fun b hb hover => ?_⟩
    · -- A record as sure as `e` would have been surer than `d`.
      obtain ⟨x, y, hx, hy, hxy⟩ := Single.isBelow_iff.1 hbelow
      exact h.not_isBelow b hb (Single.isBelow_iff.2 ⟨x, y, hx, hrank.trans hy, hxy⟩)
    · rcases List.mem_append.1 hb with hb | hb
      · exact h.not_isBelow b hb (Single.isBelow_trans hbelow hover)
      · obtain rfl := List.mem_singleton.1 hb
        exact (isSurest_singleton b).not_isBelow b List.mem_cons_self hover
  · next hnot =>
    refine ⟨⟨before, after ++ [e], by simp, hbefore⟩, fun b hb => ?_⟩
    rcases List.mem_append.1 hb with hb | hb
    · exact h.not_isBelow b hb
    · obtain rfl := List.mem_singleton.1 hb
      exact hnot

/-- The second list is the first without duplicates: of all records with the same ends, kind and
line the surest stays, the first of equally sure ones, and the keys stay in order of first
occurrence. -/
structure Deduplicates (all kept : List Dependency) : Prop where
  keys : kept.map key = (all.map key).eraseDups
  surest : ∀ d ∈ kept, IsSurest (all.filter fun e => e.key == d.key) d

theorem deduplicates_merge (all : List Dependency) :
    Deduplicates all (Keyed.merge key surer all) := by
  have h : Keyed.Represents IsSurest key all (Keyed.merge key surer all) :=
    Keyed.represents_merge keepsKey_surer isSurest_singleton (fun _ _ e _ h => h.surer e) all
  exact ⟨h.keys, h.stands⟩

end Dependency

end SymbolAtlas
