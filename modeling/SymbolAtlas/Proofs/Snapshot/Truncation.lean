import Mathlib.Tactic
import SymbolAtlas.Proofs.Snapshot.Bytes

/-!
# Stored atlases without their end

A codec looks at nothing behind the value it reads, and hands it on as it is (`Codec.Local`). So a
value can only be read where it is written out in full (`ReadsBack.read_take`): of the stored form
of an atlas, no part at the front that lacks something can be loaded (`Atlas.ofBytes_take_toBytes`).
-/

namespace SymbolAtlas

namespace Codec

variable {α β : Type}

/-- More bytes behind a value make no difference to reading it, and are left over. -/
def Local (c : Codec α) : Prop :=
  ∀ s a rest, c.read s = some (a, rest) → ∀ more, c.read (s ++ more) = some (a, rest ++ more)

/-- A value that is read back cannot be read when its end is missing. -/
theorem ReadsBack.read_take {c : Codec α} {a : α} (h : c.ReadsBack a) (hc : c.Local) {k : Nat}
    (hk : k < (c.write a).length) : c.read ((c.write a).take k) = none := by
  rw [Option.eq_none_iff_forall_ne_some]
  rintro ⟨b, rest⟩ hread
  have hall := hc _ _ _ hread ((c.write a).drop k)
  have hback := h []
  rw [List.take_append_drop] at hall
  rw [List.append_nil, hall, Option.some.injEq, Prod.mk.injEq, List.append_eq_nil_iff] at hback
  exact absurd (List.drop_eq_nil_iff.1 hback.2.2) (Nat.not_le.2 hk)

/-! ### Values built from others -/

theorem readBytes_eq_some_iff {count : Nat} {s bytes rest : Bytes} :
    readBytes count s = some (bytes, rest) ↔ s = bytes ++ rest ∧ bytes.length = count := by
  constructor
  · intro h
    simp only [readBytes] at h
    split at h
    case isTrue hlength =>
      obtain ⟨rfl, rfl⟩ := Prod.mk.inj (Option.some.inj h)
      exact ⟨(List.take_append_drop count s).symm, hlength⟩
    case isFalse => cases h
  · rintro ⟨rfl, rfl⟩
    exact readBytes_append bytes rest

theorem readBytes_local {count : Nat} {s bytes rest : Bytes}
    (h : readBytes count s = some (bytes, rest)) (more : Bytes) :
    readBytes count (s ++ more) = some (bytes, rest ++ more) := by
  obtain ⟨rfl, hlength⟩ := readBytes_eq_some_iff.1 h
  exact readBytes_eq_some_iff.2 ⟨List.append_assoc .., hlength⟩

theorem local_word (width : Nat) : (word width).Local := by
  intro s n rest h more
  obtain ⟨⟨bytes, rest'⟩, hread, heq⟩ := Option.map_eq_some_iff.1 h
  obtain ⟨rfl, rfl⟩ := Prod.mk.inj heq
  simp only [word, readBytes_local hread more, Option.map_some]

theorem local_size : size.Local := local_word 8

theorem Local.through {c : Codec α} (h : c.Local) (toForm : β → α) (ofForm : α → β) :
    (c.through toForm ofForm).Local := by
  intro s b rest hread more
  obtain ⟨⟨a, rest'⟩, ha, heq⟩ := Option.map_eq_some_iff.1 hread
  obtain ⟨rfl, rfl⟩ := Prod.mk.inj heq
  simp only [Codec.through, h _ _ _ ha more, Option.map_some]

theorem Local.throughSome {c : Codec α} (h : c.Local) (toForm : β → α) (ofForm : α → Option β) :
    (c.throughSome toForm ofForm).Local := by
  intro s b rest hread more
  obtain ⟨⟨a, rest'⟩, ha, hb⟩ := Option.bind_eq_some_iff.1 hread
  obtain ⟨b', hb', heq⟩ := Option.map_eq_some_iff.1 hb
  obtain ⟨rfl, rfl⟩ := Prod.mk.inj heq
  simp only [Codec.throughSome, h _ _ _ ha more, Option.bind_some, hb', Option.map_some]

theorem Local.pair {c : Codec α} {d : Codec β} (hc : c.Local) (hd : d.Local) :
    (c.pair d).Local := by
  rintro s ⟨a, b⟩ rest hread more
  obtain ⟨⟨a', s'⟩, ha, hread⟩ := Option.bind_eq_some_iff.1 hread
  obtain ⟨⟨b', s''⟩, hb, heq⟩ := Option.bind_eq_some_iff.1 hread
  simp only [Option.some.injEq, Prod.mk.injEq] at heq
  obtain ⟨⟨rfl, rfl⟩, rfl⟩ := heq
  simp only [Codec.pair, hc _ _ _ ha more, hd _ _ _ hb more, Option.bind_eq_bind, Option.bind_some]

theorem Local.readMany {c : Codec α} (h : c.Local) (count : Nat) (done : List α) (s : Bytes)
    {items : List α} {rest : Bytes} (hread : readMany c count done s = some (items, rest))
    (more : Bytes) : Codec.readMany c count done (s ++ more) = some (items, rest ++ more) := by
  induction count generalizing done s with
  | zero =>
    obtain ⟨rfl, rfl⟩ := Prod.mk.inj (Option.some.inj hread)
    rfl
  | succ count ih =>
    rw [Codec.readMany] at hread
    split at hread
    case h_1 a s' ha =>
      rw [Codec.readMany, h _ _ _ ha more]
      exact ih _ _ hread
    case h_2 => cases hread

theorem Local.list {c : Codec α} (h : c.Local) : c.list.Local := by
  intro s items rest hread more
  obtain ⟨⟨count, s'⟩, hcount, hread⟩ := Option.bind_eq_some_iff.1 hread
  simp only [Codec.list, local_size _ _ _ hcount more, Option.bind_some,
    h.readMany _ _ _ hread more]

theorem local_bool : bool.Local := (local_word 1).throughSome _ _

theorem Local.option {c : Codec α} (h : c.Local) : c.option.Local := by
  intro s o rest hread more
  simp only [Codec.option] at hread ⊢
  split at hread
  case h_1 s' hflag =>
    obtain ⟨⟨a, rest'⟩, ha, heq⟩ := Option.map_eq_some_iff.1 hread
    obtain ⟨rfl, rfl⟩ := Prod.mk.inj heq
    simp only [local_bool _ _ _ hflag more, h _ _ _ ha more, Option.map_some]
  case h_2 s' hflag =>
    obtain ⟨rfl, rfl⟩ := Prod.mk.inj (Option.some.inj hread)
    simp only [local_bool _ _ _ hflag more]
  case h_3 => cases hread

theorem local_choice [DecidableEq α] (all : List α) : (choice all).Local :=
  (local_word 4).throughSome _ _

theorem local_text : text.Local := by
  intro s a rest hread more
  obtain ⟨⟨count, s'⟩, hcount, hread⟩ := Option.bind_eq_some_iff.1 hread
  obtain ⟨⟨bytes, s''⟩, hbytes, hread⟩ := Option.bind_eq_some_iff.1 hread
  obtain ⟨cs, hcs, heq⟩ := Option.bind_eq_some_iff.1 hread
  obtain ⟨rfl, rfl⟩ := Prod.mk.inj (Option.some.inj heq)
  simp only [text, local_size _ _ _ hcount more, readBytes_local hbytes more, hcs,
    Option.bind_eq_bind, Option.bind_some]

theorem local_single : single.Local := (local_word 4).through _ _

end Codec

/-! ### The parts of a snapshot -/

namespace Snapshot

open Codec

theorem local_path : path.Local := local_text.through _ _

theorem local_vertexKind : vertexKind.Local := by
  intro s kind rest hread more
  have htag := local_word 4
  simp only [vertexKind] at hread ⊢
  split at hread
  case h_1 s' hs =>
    obtain ⟨rfl, rfl⟩ := Prod.mk.inj (Option.some.inj hread)
    simp only [htag _ _ _ hs more]
  case h_2 s' hs =>
    obtain ⟨rfl, rfl⟩ := Prod.mk.inj (Option.some.inj hread)
    simp only [htag _ _ _ hs more]
  case h_3 s' hs =>
    obtain ⟨⟨symbol, rest'⟩, hsymbol, heq⟩ := Option.map_eq_some_iff.1 hread
    obtain ⟨rfl, rfl⟩ := Prod.mk.inj heq
    simp only [htag _ _ _ hs more, local_choice _ _ _ _ hsymbol more, Option.map_some]
  case h_4 => cases hread

theorem local_edgeKind : edgeKind.Local := by
  intro s kind rest hread more
  have htag := local_word 4
  simp only [edgeKind] at hread ⊢
  split at hread
  case h_1 s' hs =>
    obtain ⟨rfl, rfl⟩ := Prod.mk.inj (Option.some.inj hread)
    simp only [htag _ _ _ hs more]
  case h_2 s' hs =>
    obtain ⟨⟨dependency, rest'⟩, hdependency, heq⟩ := Option.map_eq_some_iff.1 hread
    obtain ⟨rfl, rfl⟩ := Prod.mk.inj heq
    simp only [htag _ _ _ hs more, local_choice _ _ _ _ hdependency more, Option.map_some]
  case h_3 => cases hread

theorem local_vertex : vertex.Local := by
  refine Local.through (local_text.pair (local_vertexKind.pair (local_path.pair ?_))) _ _
  refine local_size.pair (local_size.pair ((local_choice _).option.pair ?_))
  exact local_bool.pair local_text.option

theorem local_edge : edge.Local :=
  Local.through (local_edgeKind.pair (local_size.pair local_single)) _ _

theorem local_dependency : dependency.Local := by
  refine Local.through (local_path.pair (local_text.pair (local_text.pair ?_))) _ _
  exact (local_choice _).pair (local_size.pair local_single)

theorem local_entity : entity.Local :=
  Local.through (local_text.pair (local_text.pair (local_text.pair local_size))) _ _

theorem local_codec : codec.Local := by
  refine Local.through ((local_word 4).pair (local_vertex.list.pair ?_)) _ _
  refine (local_size.pair (local_size.pair local_edge)).list.pair (local_dependency.list.pair ?_)
  exact local_size.pair (local_path.pair local_entity).list

end Snapshot

/-- No part of a stored atlas is loaded in place of the whole. -/
theorem Atlas.ofBytes_take_toBytes {g : Atlas} (h : g.Storable) {k : Nat}
    (hk : k < g.toBytes.length) : Atlas.ofBytes (g.toBytes.take k) = .error .malformedSnapshot := by
  have hback := Snapshot.readsBack_codec h (by change 1 < 256 ^ 4; decide)
  have hnone : Snapshot.codec.read (g.toBytes.take k) = none :=
    hback.read_take Snapshot.local_codec hk
  simp only [Atlas.ofBytes, hnone]

end SymbolAtlas
