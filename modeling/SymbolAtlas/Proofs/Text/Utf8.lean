import Mathlib.Tactic
import SymbolAtlas.Text.Utf8

/-!
# UTF-8 reads back

Decoding the bytes of a string gives its characters again (`decode?_ofString`). The bytes of one
character are read by their leading byte, for each of the four widths (`first?_encode`).

An ASCII character occurs in the bytes of a string just as often as in the string
(`count_ofString`), since no other character is encoded with its byte.
-/

namespace SymbolAtlas.Utf8

/-! ### One character -/

section

variable {a b c d : Byte} (rest : Bytes)

theorem isContinuation_iff : isContinuation b ↔ 0x80 ≤ b.toNat ∧ b.toNat ≤ 0xBF := by
  simp [isContinuation, UInt8.le_iff_toNat_le]

theorem first?_one (ha : a.toNat < 0x80) :
    first? (a :: rest) = some (Char.ofNat a.toNat, 1) := by
  have hlt : a < 0x80 := UInt8.lt_iff_toNat_lt.2 ha
  simp only [first?, if_pos hlt]

theorem within_iff {low high : Byte} :
    (low ≤ a && a ≤ high) = true ↔ low.toNat ≤ a.toNat ∧ a.toNat ≤ high.toNat := by
  simp [UInt8.le_iff_toNat_le]

theorem first?_two (ha : 0xC2 ≤ a.toNat) (ha' : a.toNat ≤ 0xDF) (hb : isContinuation b) :
    first? (a :: b :: rest) = some (assemble (a.toNat - 0xC0) [b], 2) := by
  have hone : ¬ a < 0x80 := fun h => absurd (UInt8.lt_iff_toNat_lt.1 h) (by simp; omega)
  have htwo : (0xC2 ≤ a && a ≤ 0xDF) = true := within_iff.2 ⟨ha, ha'⟩
  simp only [first?, if_neg hone, if_pos htwo, if_pos hb]

theorem first?_three (ha : 0xE0 ≤ a.toNat) (ha' : a.toNat ≤ 0xEF) (hb : second3 a b)
    (hc : isContinuation c) :
    first? (a :: b :: c :: rest) = some (assemble (a.toNat - 0xE0) [b, c], 3) := by
  have hone : ¬ a < 0x80 := fun h => absurd (UInt8.lt_iff_toNat_lt.1 h) (by simp; omega)
  have htwo : ¬ (0xC2 ≤ a && a ≤ 0xDF) = true := fun h => absurd (within_iff.1 h).2 (by simp; omega)
  have hthree : (0xE0 ≤ a && a ≤ 0xEF) = true := within_iff.2 ⟨ha, ha'⟩
  have htail : (second3 a b && isContinuation c) = true := by simp [hb, hc]
  simp only [first?, if_neg hone, if_neg htwo, if_pos hthree, if_pos htail]

theorem first?_four (ha : 0xF0 ≤ a.toNat) (ha' : a.toNat ≤ 0xF4) (hb : second4 a b)
    (hc : isContinuation c) (hd : isContinuation d) :
    first? (a :: b :: c :: d :: rest) = some (assemble (a.toNat - 0xF0) [b, c, d], 4) := by
  have hone : ¬ a < 0x80 := fun h => absurd (UInt8.lt_iff_toNat_lt.1 h) (by simp; omega)
  have htwo : ¬ (0xC2 ≤ a && a ≤ 0xDF) = true := fun h => absurd (within_iff.1 h).2 (by simp; omega)
  have hthree : ¬ (0xE0 ≤ a && a ≤ 0xEF) = true := fun h =>
    absurd (within_iff.1 h).2 (by simp; omega)
  have hfour : (0xF0 ≤ a && a ≤ 0xF4) = true := within_iff.2 ⟨ha, ha'⟩
  have htail : (second4 a b && isContinuation c && isContinuation d) = true := by simp [hb, hc, hd]
  simp only [first?, if_neg hone, if_neg htwo, if_neg hthree, if_pos hfour, if_pos htail]

end

/-- A second byte is refused only after a leading byte at an end of its range. -/
theorem second3_of {a b : Byte} (hb : isContinuation b) (hlow : a.toNat = 0xE0 → 0xA0 ≤ b.toNat)
    (hhigh : a.toNat = 0xED → b.toNat ≤ 0x9F) : second3 a b := by
  obtain ⟨hb1, hb2⟩ := isContinuation_iff.1 hb
  unfold second3
  split
  case isTrue h =>
    have := hlow (by rw [beq_iff_eq.1 h]; rfl)
    simpa [UInt8.le_iff_toNat_le] using ⟨this, hb2⟩
  case isFalse =>
    split
    case isTrue h =>
      have := hhigh (by rw [beq_iff_eq.1 h]; rfl)
      simpa [UInt8.le_iff_toNat_le] using ⟨hb1, this⟩
    case isFalse => exact hb

theorem second4_of {a b : Byte} (hb : isContinuation b) (hlow : a.toNat = 0xF0 → 0x90 ≤ b.toNat)
    (hhigh : a.toNat = 0xF4 → b.toNat ≤ 0x8F) : second4 a b := by
  obtain ⟨hb1, hb2⟩ := isContinuation_iff.1 hb
  unfold second4
  split
  case isTrue h =>
    have := hlow (by rw [beq_iff_eq.1 h]; rfl)
    simpa [UInt8.le_iff_toNat_le] using ⟨this, hb2⟩
  case isFalse =>
    split
    case isTrue h =>
      have := hhigh (by rw [beq_iff_eq.1 h]; rfl)
      simpa [UInt8.le_iff_toNat_le] using ⟨hb1, this⟩
    case isFalse => exact hb

/-- A further byte of a character holds six of its bits. -/
theorem toNat_further (n : Nat) : (UInt8.ofNat (n % 0x40 + 0x80)).toNat = n % 0x40 + 0x80 :=
  UInt8.toNat_ofNat_of_lt' (by simp only [UInt8.size]; omega)

theorem isContinuation_further (n : Nat) : isContinuation (UInt8.ofNat (n % 0x40 + 0x80)) := by
  rw [isContinuation_iff, toNat_further]
  omega

/-- The bytes of a character are read as that character. -/
theorem first?_encode (c : Char) (rest : Bytes) :
    first? (String.utf8EncodeChar c ++ rest) = some (c, (String.utf8EncodeChar c).length) := by
  have hvalid : c.toNat < 0xD800 ∨ 0xDFFF < c.toNat ∧ c.toNat < 0x110000 := c.valid
  have hchar : ∀ n, n = c.toNat → Char.ofNat n = c := fun n hn => hn ▸ Char.ofNat_toNat c
  unfold String.utf8EncodeChar
  simp only [show c.val.toNat = c.toNat from rfl]
  generalize c.toNat = v at hvalid hchar
  -- One case for each length; that no surrogate is encoded keeps the second byte within its range.
  split_ifs with h1 h2 h3
  · have ha : (UInt8.ofNat v).toNat = v :=
      UInt8.toNat_ofNat_of_lt' (by simp only [UInt8.size]; omega)
    rw [List.singleton_append, first?_one _ (by omega), ha, hchar v rfl]
    rfl
  · have ha : (UInt8.ofNat (v / 64 % 0x20 + 0xC0)).toNat = v / 64 % 0x20 + 0xC0 :=
      UInt8.toNat_ofNat_of_lt' (by simp only [UInt8.size]; omega)
    rw [List.cons_append, List.singleton_append,
      first?_two _ (by omega) (by omega) (isContinuation_further v), assemble, ha]
    simp only [List.foldl_cons, List.foldl_nil, toNat_further]
    rw [hchar _ (by omega)]
    rfl
  · have ha : (UInt8.ofNat (v / 4096 % 0x10 + 0xE0)).toNat = v / 4096 % 0x10 + 0xE0 :=
      UInt8.toNat_ofNat_of_lt' (by simp only [UInt8.size]; omega)
    have hb : second3 (UInt8.ofNat (v / 4096 % 0x10 + 0xE0)) (UInt8.ofNat (v / 64 % 0x40 + 0x80)) := by
      refine second3_of (isContinuation_further _) (fun h => ?_) fun h => ?_
      · rw [toNat_further]
        omega
      · rw [toNat_further]
        omega
    rw [List.cons_append, List.cons_append, List.singleton_append,
      first?_three _ (by omega) (by omega) hb (isContinuation_further v), assemble, ha]
    simp only [List.foldl_cons, List.foldl_nil, toNat_further]
    rw [hchar _ (by omega)]
    rfl
  · have ha : (UInt8.ofNat (v / 262144 % 0x08 + 0xF0)).toNat = v / 262144 % 0x08 + 0xF0 :=
      UInt8.toNat_ofNat_of_lt' (by simp only [UInt8.size]; omega)
    have hb : second4 (UInt8.ofNat (v / 262144 % 0x08 + 0xF0))
        (UInt8.ofNat (v / 4096 % 0x40 + 0x80)) := by
      refine second4_of (isContinuation_further _) (fun h => ?_) fun h => ?_
      · rw [toNat_further]
        omega
      · rw [toNat_further]
        omega
    rw [List.cons_append, List.cons_append, List.cons_append, List.singleton_append,
      first?_four _ (by omega) (by omega) hb (isContinuation_further _) (isContinuation_further v),
      assemble, ha]
    simp only [List.foldl_cons, List.foldl_nil, toNat_further]
    rw [hchar _ (by omega)]
    rfl

/-! ### Texts -/

theorem encode_cons (c : Char) (cs : List Char) :
    encode (c :: cs) = String.utf8EncodeChar c ++ encode cs := rfl

theorem encode_append (cs ds : List Char) : encode (cs ++ ds) = encode cs ++ encode ds :=
  List.flatMap_append

theorem decodeOnto_skip (done : List Char) (taken rest : Bytes) :
    decodeOnto done taken.length (taken ++ rest) = decodeOnto done 0 rest := by
  induction taken with
  | nil => rfl
  | cons b taken ih => exact ih

theorem decodeOnto_encode (done cs : List Char) :
    decodeOnto done 0 (encode cs) = some (done.reverse ++ cs) := by
  induction cs generalizing done with
  | nil => simp [encode, decodeOnto]
  | cons c cs ih =>
    have hfirst := first?_encode c (encode cs)
    cases hbytes : String.utf8EncodeChar c with
    | nil => exact absurd hbytes String.utf8EncodeChar_ne_nil
    | cons b more =>
      rw [hbytes, List.cons_append] at hfirst
      have hencode : encode (c :: cs) = b :: (more ++ encode cs) := by
        rw [encode, List.flatMap_cons, hbytes, List.cons_append, encode]
      rw [hencode, decodeOnto, hfirst]
      simp only [List.length_cons, Nat.add_sub_cancel]
      rw [decodeOnto_skip, ih, List.reverse_cons, List.append_assoc, List.singleton_append]

theorem ofString_eq_encode (s : String) : Bytes.ofString s = encode s.toList := by
  rw [Bytes.ofString, String.toUTF8_eq_toByteArray, ← String.utf8Encode_toList, List.utf8Encode,
    List.toList_data_toByteArray, encode]

theorem decode?_encode (cs : List Char) : decode? (encode cs) = some cs :=
  decodeOnto_encode [] cs

/-- The bytes of a string are read as its characters. -/
theorem decode?_ofString (s : String) : decode? (Bytes.ofString s) = some s.toList := by
  rw [ofString_eq_encode, decode?_encode]

/-- No character begins with a continuation byte. -/
theorem first?_of_isContinuation {b : Byte} (hb : isContinuation b) (rest : Bytes) :
    first? (b :: rest) = none := by
  obtain ⟨hlow, hhigh⟩ := isContinuation_iff.1 hb
  have hone : ¬ b < 0x80 := fun h => absurd (UInt8.lt_iff_toNat_lt.1 h) (by simp; omega)
  have htwo : ¬ (0xC2 ≤ b && b ≤ 0xDF) = true := fun h => absurd (within_iff.1 h).1 (by simp; omega)
  have hthree : ¬ (0xE0 ≤ b && b ≤ 0xEF) = true := fun h =>
    absurd (within_iff.1 h).1 (by simp; omega)
  have hfour : ¬ (0xF0 ≤ b && b ≤ 0xF4) = true := fun h =>
    absurd (within_iff.1 h).1 (by simp; omega)
  simp only [first?, if_neg hone, if_neg htwo, if_neg hthree, if_neg hfour]

/-- A character begins where the characters before it end. -/
theorem isBoundary_encode (cs ds : List Char) :
    (encode cs ++ encode ds).isBoundary (encode cs).length = true := by
  cases ds with
  | nil => simp [Bytes.isBoundary, encode]
  | cons d ds =>
    have hfirst := first?_encode d (encode ds)
    rw [← encode_cons] at hfirst
    cases hbytes : encode (d :: ds) with
    | nil =>
      rw [hbytes] at hfirst
      cases hfirst
    | cons b more =>
      have hb : isContinuation b = false := by
        by_contra hb
        rw [hbytes, first?_of_isContinuation (Bool.eq_true_of_not_eq_false hb)] at hfirst
        cases hfirst
      simp [Bytes.isBoundary, hb]

/-! ### Occurrences of ASCII characters -/

theorem encodeChar_of_lt {c : Char} (hc : c.toNat < 0x80) :
    String.utf8EncodeChar c = [UInt8.ofNat c.toNat] := by
  unfold String.utf8EncodeChar
  simp only [show c.val.toNat = c.toNat from rfl]
  rw [if_pos (by omega)]

/-- Of a character past ASCII every byte is past ASCII. -/
theorem le_of_mem_encodeChar {c : Char} (hc : 0x80 ≤ c.toNat) {b : Byte}
    (hb : b ∈ String.utf8EncodeChar c) : 0x80 ≤ b.toNat := by
  have hbits (n k mark : Nat) (hk : 0 < k) (hmark : 0x80 ≤ mark) (hsum : k + mark ≤ 0x100) :
      0x80 ≤ (UInt8.ofNat (n % k + mark)).toNat := by
    have := Nat.mod_lt n hk
    rw [UInt8.toNat_ofNat_of_lt' (by simp only [UInt8.size]; omega)]
    omega
  unfold String.utf8EncodeChar at hb
  simp only [show c.val.toNat = c.toNat from rfl] at hb
  split_ifs at hb
  · omega
  all_goals simp only [List.mem_cons, List.not_mem_nil, or_false] at hb
  · rcases hb with rfl | rfl <;> exact hbits _ _ _ (by decide) (by decide) (by decide)
  · rcases hb with rfl | rfl | rfl <;> exact hbits _ _ _ (by decide) (by decide) (by decide)
  · rcases hb with rfl | rfl | rfl | rfl <;> exact hbits _ _ _ (by decide) (by decide) (by decide)

theorem count_encodeChar {a : Char} (ha : a.toNat < 0x80) (c : Char) :
    (String.utf8EncodeChar c).count (UInt8.ofNat a.toNat) = [c].count a := by
  have htoNat {n : Nat} (hn : n < 0x80) : (UInt8.ofNat n).toNat = n :=
    UInt8.toNat_ofNat_of_lt' (by simp only [UInt8.size]; omega)
  by_cases hca : c = a
  · subst hca
    rw [encodeChar_of_lt ha, List.count_singleton_self, List.count_singleton_self]
  · rw [List.count_cons_of_ne hca, List.count_nil, List.count_eq_zero]
    intro hmem
    by_cases hc : c.toNat < 0x80
    · rw [encodeChar_of_lt hc, List.mem_singleton] at hmem
      have hval := congrArg UInt8.toNat hmem
      rw [htoNat ha, htoNat hc] at hval
      exact hca (Char.toNat_inj.1 hval.symm)
    · have hpast := le_of_mem_encodeChar (by omega) hmem
      rw [htoNat ha] at hpast
      omega

theorem count_encode {a : Char} (ha : a.toNat < 0x80) (cs : List Char) :
    (encode cs).count (UInt8.ofNat a.toNat) = cs.count a := by
  induction cs with
  | nil => rfl
  | cons c cs ih =>
    rw [encode, List.flatMap_cons, List.count_append, ← encode, ih, count_encodeChar ha,
      ← List.count_append, List.singleton_append]

/-- An ASCII character stands in a string as often as its byte does in the bytes of the string. -/
theorem count_ofString {a : Char} (ha : a.toNat < 0x80) (s : String) :
    (Bytes.ofString s).count (UInt8.ofNat a.toNat) = s.toList.count a := by
  rw [ofString_eq_encode, count_encode ha]

end SymbolAtlas.Utf8
