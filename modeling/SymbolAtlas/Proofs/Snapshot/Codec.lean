import Mathlib.Tactic
import SymbolAtlas.Proofs.Text.Utf8
import SymbolAtlas.Snapshot.Codec

/-!
# Codecs read back what they write

A codec reads a value back (`Codec.ReadsBack`) if it gives the value, and just the bytes after it,
whatever these are. Each way to build a codec keeps this, as long as numbers and lengths fit in the
bytes that are set aside for them.
-/

namespace SymbolAtlas.Codec

variable {α β : Type}

/-- What was written is read, up to where it ends. -/
def ReadsBack (c : Codec α) (a : α) : Prop :=
  ∀ rest, c.read (c.write a ++ rest) = some (a, rest)

/-! ### Numbers -/

@[simp] theorem length_littleEndian (width n : Nat) : (littleEndian width n).length = width := by
  induction width generalizing n with
  | zero => rfl
  | succ width ih => simp [littleEndian, ih]

theorem ofLittleEndian_littleEndian {width n : Nat} (h : n < 256 ^ width) :
    ofLittleEndian (littleEndian width n) = n := by
  induction width generalizing n with
  | zero =>
    have : n = 0 := by simpa using h
    simp [this, littleEndian, ofLittleEndian]
  | succ width ih =>
    have hrest := ih (n := n / 256) (by
      rw [Nat.div_lt_iff_lt_mul (by decide)]
      simpa [Nat.pow_succ] using h)
    have hbyte : (UInt8.ofNat (n % 256)).toNat = n % 256 :=
      UInt8.toNat_ofNat_of_lt' (Nat.mod_lt _ (by decide))
    change (UInt8.ofNat (n % 256)).toNat + 256 * ofLittleEndian (littleEndian width (n / 256)) = n
    rw [hrest, hbyte]
    omega

theorem readBytes_append (bytes rest : Bytes) :
    readBytes bytes.length (bytes ++ rest) = some (bytes, rest) := by
  simp [readBytes]

theorem readsBack_word {width n : Nat} (h : n < 256 ^ width) : (word width).ReadsBack n := by
  intro rest
  have hread := readBytes_append (littleEndian width n) rest
  rw [length_littleEndian] at hread
  simp only [word, hread, Option.map_some, ofLittleEndian_littleEndian h]

/-- A number fits in the eight bytes of a size. -/
def FitsSize (n : Nat) : Prop := n < 256 ^ 8

theorem readsBack_size {n : Nat} (h : FitsSize n) : size.ReadsBack n := readsBack_word h

/-! ### Values built from others -/

theorem ReadsBack.through {c : Codec α} {toForm : β → α} {ofForm : α → β} {b : β}
    (h : c.ReadsBack (toForm b)) (hb : ofForm (toForm b) = b) :
    (c.through toForm ofForm).ReadsBack b := by
  intro rest
  simp only [Codec.through, h rest, Option.map_some, hb]

theorem ReadsBack.throughSome {c : Codec α} {toForm : β → α} {ofForm : α → Option β} {b : β}
    (h : c.ReadsBack (toForm b)) (hb : ofForm (toForm b) = some b) :
    (c.throughSome toForm ofForm).ReadsBack b := by
  intro rest
  simp only [Codec.throughSome, h rest, Option.bind_some, hb, Option.map_some]

theorem ReadsBack.pair {c : Codec α} {d : Codec β} {a : α} {b : β} (ha : c.ReadsBack a)
    (hb : d.ReadsBack b) : (c.pair d).ReadsBack (a, b) := by
  intro rest
  simp only [Codec.pair, List.append_assoc, ha _, hb _, Option.bind_eq_bind, Option.bind_some]

theorem readMany_flatMap {c : Codec α} {items : List α} (h : ∀ a ∈ items, c.ReadsBack a)
    (done : List α) (rest : Bytes) :
    readMany c items.length done (items.flatMap c.write ++ rest) =
      some (done.reverse ++ items, rest) := by
  induction items generalizing done with
  | nil => simp [readMany]
  | cons a items ih =>
    obtain ⟨ha, hitems⟩ := List.forall_mem_cons.1 h
    rw [List.flatMap_cons, List.append_assoc, List.length_cons, readMany, ha]
    exact (ih hitems (a :: done)).trans (by simp)

theorem readsBack_list {c : Codec α} {items : List α} (h : ∀ a ∈ items, c.ReadsBack a)
    (hlength : FitsSize items.length) : c.list.ReadsBack items := by
  intro rest
  simp only [list, List.append_assoc, readsBack_size hlength _, Option.bind_some,
    readMany_flatMap h, List.reverse_nil, List.nil_append]

theorem readsBack_bool (b : Bool) : bool.ReadsBack b := by
  refine ReadsBack.throughSome (readsBack_word ?_) ?_
  · cases b <;> decide
  · cases b <;> rfl

theorem readsBack_option {c : Codec α} {o : Option α} (h : ∀ a ∈ o, c.ReadsBack a) :
    c.option.ReadsBack o := by
  intro rest
  cases o with
  | none => simp only [option, readsBack_bool false rest]
  | some a =>
    simp only [option, List.append_assoc, readsBack_bool true _, h a rfl rest, Option.map_some]

theorem readsBack_choice [DecidableEq α] {all : List α} {a : α} (ha : a ∈ all)
    (hall : all.length ≤ 256 ^ 4) : (choice all).ReadsBack a := by
  have hlt : all.idxOf a < all.length := List.idxOf_lt_length_iff.2 ha
  refine ReadsBack.throughSome (readsBack_word (lt_of_lt_of_le hlt hall)) ?_
  rw [List.getElem?_eq_getElem hlt, List.getElem_idxOf]

theorem readsBack_text {s : String} (h : FitsSize (Bytes.ofString s).length) :
    text.ReadsBack s := by
  intro rest
  simp only [text, List.append_assoc, readsBack_size h _, readBytes_append,
    Utf8.decode?_ofString, Option.bind_eq_bind, Option.bind_some, String.ofList_toList]

theorem readsBack_single (x : Single) : single.ReadsBack x := by
  refine ReadsBack.through (readsBack_word x.bits.toNat_lt) ?_
  simp only [UInt32.ofNat_toNat]

end SymbolAtlas.Codec
