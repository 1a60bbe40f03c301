import Mathlib.Data.List.DropRight
import Mathlib.Tactic
import SymbolAtlas.Proofs.Extract.CallPattern
import SymbolAtlas.Text.TypeName

/-!
# Stripping type names

`TypeName.base` takes type arguments, nullability marks, array brackets and spacing off the name of
a type. It does so in one order: first the marks at the end, then the brackets in front of them,
then the spacing. So it arrives at a bare name exactly if what stands around the name stands in that
order (`Spells`). In `Foo[]?` it does. In `Foo?[]` the mark is covered by the brackets and stays.

* `Chars.Leaves` — what is left when a text is taken off an end as often as possible;
* `TypeName.spells_baseChars` — what stands around the base name;
* `TypeName.baseChars_of_spells` — a bare name is found if nothing else stands around it;
* `TypeName.baseChars_eq_self_iff` — the names that are kept as they are.
-/

namespace SymbolAtlas

open TextCall (IsSpacing Stops)

theorem TextCall.Stops.left {p : Char → Bool} {front rest : List Char}
    (h : Stops p (front ++ rest)) : Stops p front := by
  cases front with
  | nil => simp [Stops]
  | cons c front => exact h

namespace Chars

variable {cs rest s : List Char}

/-! ### One text taken off an end -/

/-- The text `n` times in a row. -/
def copies (pattern : List Char) (n : Nat) : List Char := (List.replicate n pattern).flatten

theorem copies_succ (pattern : List Char) (n : Nat) :
    copies pattern (n + 1) = copies pattern n ++ pattern := by
  rw [copies, List.replicate_succ', List.flatten_append, List.flatten_singleton, copies]

theorem mem_of_mem_copies {pattern : List Char} {n : Nat} {c : Char} (h : c ∈ copies pattern n) :
    c ∈ pattern := by
  obtain ⟨l, hl, hc⟩ := List.mem_flatten.1 h
  rwa [(List.mem_replicate.1 hl).2] at hc

/-- Without the copies of `pattern` at its end, the text is `rest`. -/
structure Leaves (pattern cs rest : List Char) : Prop where
  exhausted : ¬ pattern <:+ rest
  exists_copies : ∃ n, cs = rest ++ copies pattern n

theorem Leaves.unique {pattern rest' : List Char} (h : Leaves pattern cs rest)
    (h' : Leaves pattern cs rest') : rest = rest' := by
  obtain ⟨hrest, n, rfl⟩ := h
  obtain ⟨hrest', n', heq⟩ := h'
  induction n generalizing n' with
  | zero =>
    cases n' with
    | zero => simpa [copies] using heq
    | succ n' =>
      refine absurd ⟨rest' ++ copies pattern n', ?_⟩ hrest
      simpa [copies, List.replicate_succ'] using heq.symm
  | succ n ih =>
    cases n' with
    | zero =>
      refine absurd ⟨rest ++ copies pattern n, ?_⟩ hrest'
      simpa [copies, List.replicate_succ'] using heq
    | succ n' =>
      rw [copies_succ, copies_succ, ← List.append_assoc, ← List.append_assoc] at heq
      exact ih n' (List.append_cancel_right heq)

/-- With enough fuel no copy is left in front. -/
theorem exists_copies_go {pattern : List Char} (hpattern : pattern ≠ []) (cs : List Char)
    {fuel : Nat} (hfuel : cs.length < fuel) :
    ¬ pattern <+: dropEndPattern.go pattern fuel cs ∧
      ∃ n, cs = copies pattern n ++ dropEndPattern.go pattern fuel cs := by
  induction fuel generalizing cs with
  | zero => omega
  | succ fuel ih =>
    by_cases hcs : pattern <+: cs
    · obtain ⟨rest, rfl⟩ := hcs
      have hgo : dropEndPattern.go pattern (fuel + 1) (pattern ++ rest) =
          dropEndPattern.go pattern fuel rest := by
        simp [dropEndPattern.go, hpattern]
      have hpos := List.length_pos_iff.2 hpattern
      rw [List.length_append] at hfuel
      obtain ⟨hdone, n, hn⟩ := ih rest (by omega)
      rw [hgo]
      refine ⟨hdone, n + 1, ?_⟩
      rw [copies, List.replicate_succ, List.flatten_cons, List.append_assoc]
      exact congrArg (pattern ++ ·) hn
    · have hgo : dropEndPattern.go pattern (fuel + 1) cs = cs := by
        simp [dropEndPattern.go, hcs]
      rw [hgo]
      exact ⟨hcs, 0, rfl⟩

theorem leaves_dropEndPattern {pattern : List Char} (hpattern : pattern ≠ []) (cs : List Char) :
    Leaves pattern cs (dropEndPattern pattern cs) := by
  have hlength : cs.reverse.length < cs.length + 1 := by simp
  obtain ⟨hdone, n, hn⟩ :=
    exists_copies_go (List.reverse_ne_nil_iff.2 hpattern) cs.reverse hlength
  refine ⟨fun h => hdone ?_, n, ?_⟩
  · rwa [dropEndPattern, ← List.reverse_prefix, List.reverse_reverse] at h
  · have hcopies : (copies pattern.reverse n).reverse = copies pattern n := by
      simp [copies, List.reverse_flatten]
    rw [← hcopies, dropEndPattern, ← List.reverse_append, ← hn, List.reverse_reverse]

theorem leaves_dropEndWhile (c : Char) (cs : List Char) :
    Leaves [c] cs (dropEndWhile (· == c) cs) := by
  refine ⟨?_, (cs.rtakeWhile (· == c)).length, ?_⟩
  · rintro ⟨front, hfront⟩
    have hne : cs.rdropWhile (· == c) ≠ [] := fun hnil =>
      List.append_ne_nil_of_right_ne_nil front (List.cons_ne_nil c []) (hfront.trans hnil)
    have hlast := List.rdropWhile_last_not (· == c) cs hne
    simp [← show front ++ [c] = cs.rdropWhile (· == c) from hfront] at hlast
  · have hmarks : copies [c] (cs.rtakeWhile (· == c)).length = cs.rtakeWhile (· == c) := by
      rw [copies, List.flatten_replicate_singleton]
      refine (List.eq_replicate_of_mem fun x hx => ?_).symm
      simpa using List.mem_rtakeWhile_imp hx
    rw [hmarks]
    exact List.rdropWhile_append_rtakeWhile.symm

/-- Characters that the pattern does not end in hide what stands in front of them. -/
theorem not_suffix_append (front : List Char) {c : Char} (hcs : ¬ front ++ [c] <:+ cs)
    (hc : c ∉ s) : ¬ front ++ [c] <:+ cs ++ s := by
  rintro ⟨more, hmore⟩
  cases s using List.reverseRecOn with
  | nil => exact hcs ⟨more, by simpa using hmore⟩
  | append_singleton s d =>
    rw [← List.append_assoc, ← List.append_assoc] at hmore
    have hd := (List.append_inj' hmore rfl).2
    exact hc (by simp [List.cons.inj hd])

/-! ### Spacing -/

/-- No spacing stands at either end. -/
structure Trimmed (cs : List Char) : Prop where
  front : Stops CharClass.isSpace cs
  back : Stops CharClass.isSpace cs.reverse

theorem trimStart_of_stops (h : Stops CharClass.isSpace cs) : trimStart cs = cs :=
  TextCall.dropWhile_append_of_stops (w := []) (by simp) h

theorem trimEnd_of_stops (h : Stops CharClass.isSpace cs.reverse) : trimEnd cs = cs := by
  rw [trimEnd, dropEndWhile, ← trimStart, trimStart_of_stops h, List.reverse_reverse]

theorem trimEnd_append (cs : List Char) (hs : IsSpacing s) : trimEnd (cs ++ s) = trimEnd cs := by
  have hreverse : ∀ c ∈ s.reverse, CharClass.isSpace c = true := fun c hc =>
    hs c (List.mem_reverse.1 hc)
  rw [trimEnd, dropEndWhile, List.reverse_append, List.dropWhile_append_of_pos hreverse]
  rfl

theorem trimStart_append_cons {c : Char} (hc : CharClass.isSpace c = false) (cs more : List Char) :
    trimStart (cs ++ c :: more) = trimStart cs ++ c :: more := by
  have hmore : trimStart (c :: more) = c :: more :=
    trimStart_of_stops (TextCall.stops_cons hc more)
  rw [trimStart, List.dropWhile_append]
  split_ifs with hnil
  · rw [← trimStart, hmore, trimStart, List.isEmpty_iff.1 hnil, List.nil_append]
  · rfl

theorem trimEnd_append_cons {c : Char} (hc : CharClass.isSpace c = false) (cs more : List Char) :
    trimEnd (cs ++ c :: more) = cs ++ c :: trimEnd more := by
  rw [trimEnd, dropEndWhile, List.reverse_append, List.reverse_cons, List.append_assoc,
    List.singleton_append, ← trimStart, trimStart_append_cons hc]
  simp [trimEnd, dropEndWhile, trimStart]

theorem exists_trimEnd (cs : List Char) : ∃ s, IsSpacing s ∧ cs = trimEnd cs ++ s := by
  obtain ⟨s, hs, hcs⟩ := TextCall.exists_trimStart cs.reverse
  refine ⟨s.reverse, fun c hc => hs c (List.mem_reverse.1 hc), ?_⟩
  rw [trimEnd, dropEndWhile, ← trimStart, ← List.reverse_append, ← hcs, List.reverse_reverse]

theorem stops_trimStart (cs : List Char) : Stops CharClass.isSpace (trimStart cs) := by
  intro c hc
  have hhead := List.head?_dropWhile_not CharClass.isSpace cs
  rwa [← trimStart, hc] at hhead

theorem trimmed_trim (cs : List Char) : Trimmed (trim cs) := by
  constructor
  · obtain ⟨s, -, hs⟩ := exists_trimEnd (trimStart cs)
    have hstops := stops_trimStart cs
    rw [hs] at hstops
    exact hstops.left
  · rw [trim, trimEnd, dropEndWhile, List.reverse_reverse]
    exact stops_trimStart _

theorem Trimmed.trim_eq (h : Trimmed cs) : trim cs = cs := by
  rw [trim, trimStart_of_stops h.front, trimEnd_of_stops h.back]

theorem exists_trim (cs : List Char) :
    ∃ lead trail, IsSpacing lead ∧ IsSpacing trail ∧ cs = lead ++ (trim cs ++ trail) := by
  obtain ⟨lead, hlead, hcs⟩ := TextCall.exists_trimStart cs
  obtain ⟨trail, htrail, hrest⟩ := exists_trimEnd (trimStart cs)
  exact ⟨lead, trail, hlead, htrail, by rw [trim, ← hrest, ← hcs]⟩

theorem trimStart_append {lead : List Char} (hlead : IsSpacing lead) (cs : List Char) :
    trimStart (lead ++ cs) = trimStart cs :=
  List.dropWhile_append_of_pos hlead

/-- Spacing behind a text makes no difference to it. -/
theorem trim_append (cs : List Char) (hs : IsSpacing s) : trim (cs ++ s) = trim cs := by
  rw [trim, trimStart, List.dropWhile_append]
  split_ifs with hnil
  · have hdrop : s.dropWhile CharClass.isSpace = [] := List.dropWhile_eq_nil_iff.2 hs
    rw [hdrop, trim, trimStart, List.isEmpty_iff.1 hnil]
  · exact trimEnd_append _ hs

/-! ### The text in front of a character -/

theorem before_cons (c x : Char) (cs : List Char) :
    before [c] (x :: cs) = if x = c then [] else x :: before [c] cs := by
  by_cases hx : x = c
  · subst hx
    simp [before, splitAt?]
  · have hx' : ¬ c = x := fun h => hx h.symm
    cases hsplit : splitAt? [c] cs <;> simp [before, splitAt?, hx, hx', hsplit]

theorem before_eq_takeWhile (c : Char) (cs : List Char) :
    before [c] cs = cs.takeWhile (· != c) := by
  induction cs with
  | nil => rfl
  | cons x cs ih =>
    rw [before_cons, ih, List.takeWhile_cons]
    by_cases hx : x = c <;> simp [hx]

theorem bne_of_not_mem {c : Char} (h : c ∉ cs) : ∀ x ∈ cs, (x != c) = true := by
  intro x hx
  rw [bne_iff_ne]
  rintro rfl
  exact h hx

theorem before_of_not_mem {c : Char} (h : c ∉ cs) : before [c] cs = cs := by
  rw [before_eq_takeWhile, List.takeWhile_eq_self_iff]
  exact bne_of_not_mem h

theorem before_append_cons {c : Char} (h : c ∉ cs) (more : List Char) :
    before [c] (cs ++ c :: more) = cs := by
  have hstops : Stops (· != c) (c :: more) := by
    rintro x ⟨⟩
    exact bne_self_eq_false c
  rw [before_eq_takeWhile]
  exact TextCall.takeWhile_append_of_stops (bne_of_not_mem h) hstops

theorem before_append_dropWhile (c : Char) (cs : List Char) :
    before [c] cs ++ cs.dropWhile (· != c) = cs := by
  rw [before_eq_takeWhile, List.takeWhile_append_dropWhile]

end Chars

namespace TypeName

open Chars

/-! ### The name and what stands around it -/

/-- Spacing, array brackets and nullability marks behind a name, in this order. -/
def Marked (name cs : List Char) : Prop :=
  ∃ gap ranks marks, IsSpacing gap ∧
    cs = name ++ (gap ++ (copies ['[', ']'] ranks ++ copies ['?'] marks))

/-- A name, spelled with spacing in front and such marks behind it, and then with type arguments or
further spacing. -/
def Spells (cs name : List Char) : Prop :=
  ∃ lead marked tail, IsSpacing lead ∧ Marked name marked ∧
    (IsSpacing tail ∨ tail.head? = some '<') ∧ cs = lead ++ (marked ++ tail)

/-- A name at which there is nothing to take off. -/
structure Bare (name : List Char) : Prop where
  noArguments : '<' ∉ name
  trimmed : Trimmed name
  noMark : ¬ ['?'] <:+ name
  noRank : ¬ ['[', ']'] <:+ name

/-- The name in front of the marks at the end of a text, as far as they stand in order. -/
def unmarked (cs : List Char) : List Char :=
  trim (dropEndPattern ['[', ']'] (dropEndWhile (· == '?') cs))

theorem baseChars_eq (cs : List Char) : baseChars cs = unmarked (before ['<'] (trim cs)) := rfl

variable {cs name : List Char}

/-- There is no spacing among brackets and marks. -/
theorem isSpace_of_mem_copies {ranks marks : Nat} {c : Char}
    (h : c ∈ copies ['[', ']'] ranks ++ copies ['?'] marks) : CharClass.isSpace c = false := by
  have hc : c ∈ ['[', ']', '?'] := by
    rcases List.mem_append.1 h with h | h
    · exact List.mem_append_left ['?'] (mem_of_mem_copies h)
    · exact List.mem_append_right ['[', ']'] (mem_of_mem_copies h)
  simp only [List.mem_cons, List.not_mem_nil, or_false] at hc
  rcases hc with rfl | rfl | rfl <;> decide +kernel

theorem not_mem_of_isSpacing {s : List Char} (hs : IsSpacing s) {c : Char}
    (hc : CharClass.isSpace c = false) : c ∉ s := by
  intro hmem
  rw [hs c hmem] at hc
  cases hc

/-- Marks that stand in order are all taken off a bare name. -/
theorem unmarked_of_marked (hname : Bare name) (h : Marked name cs) : unmarked cs = name := by
  obtain ⟨gap, ranks, marks, hgap, rfl⟩ := h
  have hranks : Leaves ['?'] (name ++ (gap ++ (copies ['[', ']'] ranks ++ copies ['?'] marks)))
      (name ++ (gap ++ copies ['[', ']'] ranks)) := by
    refine ⟨not_suffix_append [] hname.noMark ?_, marks, by simp⟩
    intro hmem
    rcases List.mem_append.1 hmem with hmem | hmem
    · exact not_mem_of_isSpacing hgap (by decide +kernel) hmem
    · simpa using mem_of_mem_copies hmem
  have hgapped : Leaves ['[', ']'] (name ++ (gap ++ copies ['[', ']'] ranks)) (name ++ gap) :=
    ⟨not_suffix_append ['['] hname.noRank (not_mem_of_isSpacing hgap (by decide +kernel)), ranks,
      by simp⟩
  rw [unmarked, (leaves_dropEndWhile '?' _).unique hranks,
    (leaves_dropEndPattern (by simp) _).unique hgapped, trim_append _ hgap, hname.trimmed.trim_eq]

theorem Marked.trimStart (hname : Trimmed name) (h : Marked name cs) :
    Marked name (Chars.trimStart cs) := by
  obtain ⟨gap, ranks, marks, hgap, rfl⟩ := h
  cases name with
  | nil =>
    -- Without a name the spacing stands at the front.
    refine ⟨[], ranks, marks, by simp [IsSpacing], ?_⟩
    exact hgap.trimStart_append fun c hc => isSpace_of_mem_copies (List.mem_of_mem_head? hc)
  | cons c name =>
    refine ⟨gap, ranks, marks, hgap, ?_⟩
    exact trimStart_of_stops (TextCall.stops_cons (hname.front c rfl) _)

theorem Marked.trimEnd (hname : Trimmed name) (h : Marked name cs) :
    Marked name (Chars.trimEnd cs) := by
  obtain ⟨gap, ranks, marks, hgap, rfl⟩ := h
  by_cases hnone : copies ['[', ']'] ranks ++ copies ['?'] marks = []
  · -- Without marks the spacing stands at the end.
    refine ⟨[], 0, 0, by simp [IsSpacing], ?_⟩
    rw [hnone, List.append_nil, trimEnd_append _ hgap, trimEnd_of_stops hname.back]
    simp [copies]
  · refine ⟨gap, ranks, marks, hgap, trimEnd_of_stops ?_⟩
    rw [← List.append_assoc, List.reverse_append]
    cases hreverse : (copies ['[', ']'] ranks ++ copies ['?'] marks).reverse with
    | nil => exact absurd (List.reverse_eq_nil_iff.1 hreverse) hnone
    | cons c more =>
      have hc : c ∈ copies ['[', ']'] ranks ++ copies ['?'] marks := by
        rw [← List.mem_reverse, hreverse]
        exact List.mem_cons_self
      exact TextCall.stops_cons (isSpace_of_mem_copies hc) _

theorem Marked.not_mem (hname : '<' ∉ name) (h : Marked name cs) : '<' ∉ cs := by
  obtain ⟨gap, ranks, marks, hgap, rfl⟩ := h
  intro hmem
  simp only [List.mem_append] at hmem
  rcases hmem with hmem | hmem | hmem | hmem
  · exact hname hmem
  · exact not_mem_of_isSpacing hgap (by decide +kernel) hmem
  · simpa using mem_of_mem_copies hmem
  · simpa using mem_of_mem_copies hmem

theorem Spells.marked_before (hname : Bare name) (h : Spells cs name) :
    Marked name (before ['<'] (trim cs)) := by
  obtain ⟨lead, marked, tail, hlead, hmarked, htail, rfl⟩ := h
  have hstart := hmarked.trimStart hname.trimmed
  rcases htail with htail | htail
  · have htrim : trim (lead ++ (marked ++ tail)) = trim marked := by
      rw [← List.append_assoc, trim_append _ htail, trim, trimStart_append hlead, trim]
    have hend : Marked name (trim marked) := hstart.trimEnd hname.trimmed
    rwa [htrim, before_of_not_mem (hend.not_mem hname.noArguments)]
  · obtain ⟨more, rfl⟩ := List.head?_eq_some_iff.1 htail
    have htrim : trim (lead ++ (marked ++ '<' :: more)) =
        Chars.trimStart marked ++ '<' :: Chars.trimEnd more := by
      rw [trim, trimStart_append hlead, trimStart_append_cons (by decide +kernel),
        trimEnd_append_cons (by decide +kernel)]
    rwa [htrim, before_append_cons (hstart.not_mem hname.noArguments)]

/-- A bare name is found if it is spelled with its marks in order. -/
theorem baseChars_of_spells (hname : Bare name) (h : Spells cs name) : baseChars cs = name :=
  unmarked_of_marked hname (h.marked_before hname)

/-! ### What is taken off -/

theorem marked_unmarked (hcs : Stops CharClass.isSpace cs) : Marked (unmarked cs) cs := by
  obtain ⟨-, marks, hmarks⟩ := leaves_dropEndWhile '?' cs
  obtain ⟨-, ranks, hranks⟩ :=
    leaves_dropEndPattern (List.cons_ne_nil '[' [']']) (dropEndWhile (· == '?') cs)
  obtain ⟨gap, hgap, hrest⟩ :=
    exists_trimEnd (dropEndPattern ['[', ']'] (dropEndWhile (· == '?') cs))
  have hcsEq : cs = dropEndPattern ['[', ']'] (dropEndWhile (· == '?') cs) ++
      (copies ['[', ']'] ranks ++ copies ['?'] marks) := by
    rw [← List.append_assoc, ← hranks, ← hmarks]
  -- Nothing is trimmed at the front, where the text itself begins.
  have hfront : Stops CharClass.isSpace
      (dropEndPattern ['[', ']'] (dropEndWhile (· == '?') cs)) := by
    rw [hcsEq] at hcs
    exact hcs.left
  refine ⟨gap, ranks, marks, hgap, ?_⟩
  rw [unmarked, trim, trimStart_of_stops hfront, ← List.append_assoc, ← hrest]
  exact hcsEq

theorem stops_before_trim (cs : List Char) :
    Stops CharClass.isSpace (before ['<'] (trim cs)) := by
  have hstops := (trimmed_trim cs).front
  rw [← before_append_dropWhile '<' (trim cs)] at hstops
  exact hstops.left

/-- Whatever is taken off stands around the base name in order. -/
theorem spells_baseChars (cs : List Char) : Spells cs (baseChars cs) := by
  obtain ⟨lead, trail, hlead, htrail, hcs⟩ := exists_trim cs
  have hmarked : Marked (baseChars cs) (before ['<'] (trim cs)) :=
    marked_unmarked (stops_before_trim cs)
  refine ⟨lead, before ['<'] (trim cs), (trim cs).dropWhile (· != '<') ++ trail, hlead, hmarked,
    ?_, ?_⟩
  · have hhead := List.head?_dropWhile_not (· != '<') (trim cs)
    cases htail : (trim cs).dropWhile (· != '<') with
    | nil => exact .inl htrail
    | cons c tail =>
      rw [htail] at hhead
      exact .inr (by simpa using hhead)
  · rw [← List.append_assoc (before ['<'] (trim cs)), before_append_dropWhile]
    exact hcs

theorem not_mem_baseChars (cs : List Char) : '<' ∉ baseChars cs := by
  intro hmem
  obtain ⟨gap, ranks, marks, -, hmarked⟩ := marked_unmarked (stops_before_trim cs)
  have hbefore : '<' ∈ before ['<'] (trim cs) := by
    rw [hmarked]
    exact List.mem_append_left _ hmem
  rw [before_eq_takeWhile] at hbefore
  simpa using List.mem_takeWhile_imp hbefore

theorem trimmed_baseChars (cs : List Char) : Trimmed (baseChars cs) := trimmed_trim _

/-- The names that are kept are the bare ones. -/
theorem baseChars_eq_self_iff : baseChars name = name ↔ Bare name := by
  constructor
  · intro h
    have hargs : '<' ∉ name := h ▸ not_mem_baseChars name
    have htrimmed : Trimmed name := h ▸ trimmed_baseChars name
    have hplain : before ['<'] (trim name) = name := by
      rw [htrimmed.trim_eq, before_of_not_mem hargs]
    have hunmarked : unmarked name = name := by rwa [baseChars_eq, hplain] at h
    obtain ⟨hmark, marks, hmarks⟩ := leaves_dropEndWhile '?' name
    obtain ⟨hrank, ranks, hranks⟩ :=
      leaves_dropEndPattern (List.cons_ne_nil '[' [']']) (dropEndWhile (· == '?') name)
    obtain ⟨lead, trail, -, -, htrim⟩ :=
      exists_trim (dropEndPattern ['[', ']'] (dropEndWhile (· == '?') name))
    rw [← unmarked, hunmarked] at htrim
    -- Nothing was taken off in any of the steps, as the name is as long as it was.
    have hlength₁ := congrArg List.length hmarks
    have hlength₂ := congrArg List.length hranks
    have hlength₃ := congrArg List.length htrim
    simp only [List.length_append] at hlength₁ hlength₂ hlength₃
    have hsame : dropEndWhile (· == '?') name = name :=
      (List.IsPrefix.eq_of_length_le ⟨_, hmarks.symm⟩ (by omega))
    rw [hsame] at hmark hrank hranks hlength₂ hlength₃
    have hsame' : dropEndPattern ['[', ']'] name = name :=
      (List.IsPrefix.eq_of_length_le ⟨_, hranks.symm⟩ (by omega))
    rw [hsame'] at hrank
    exact ⟨hargs, htrimmed, hmark, hrank⟩
  · intro h
    refine baseChars_of_spells h ⟨[], name, [], by simp [IsSpacing], ?_, by simp [IsSpacing], ?_⟩
    · exact ⟨[], 0, 0, by simp [IsSpacing], by simp [copies]⟩
    · simp

/-! ### The base name of a text -/

/-- The text spells a bare name, with what is taken off standing around it in order. -/
def InOrder (s : String) : Prop := ∃ name, Bare name ∧ Spells s.toList name

/-- Neither a nullability mark nor array brackets are left at the end. -/
def Stripped (s : String) : Prop := Str.endsWith s "?" = false ∧ Str.endsWith s "[]" = false

instance (s : String) : Decidable (Stripped s) := inferInstanceAs (Decidable (_ ∧ _))

theorem toList_base (s : String) : (base s).toList = baseChars s.toList := String.toList_ofList

theorem stripped_iff (s : String) :
    Stripped s ↔ ¬ ['?'] <:+ s.toList ∧ ¬ ['[', ']'] <:+ s.toList := by
  rw [Stripped, Str.endsWith, Str.endsWith, ← Bool.not_eq_true, ← Bool.not_eq_true,
    List.isSuffixOf_iff_suffix, List.isSuffixOf_iff_suffix]
  rfl

theorem bare_toList_base_iff (s : String) : Bare (base s).toList ↔ Stripped (base s) := by
  rw [stripped_iff]
  refine ⟨fun h => ⟨h.noMark, h.noRank⟩, fun h => ?_⟩
  refine ⟨?_, ?_, h.1, h.2⟩
  · rw [toList_base]
    exact not_mem_baseChars s.toList
  · rw [toList_base]
    exact trimmed_baseChars s.toList

/-- A second stripping changes nothing exactly if the first one was complete. -/
theorem base_base_iff (s : String) : base (base s) = base s ↔ Stripped (base s) := by
  rw [← bare_toList_base_iff, ← baseChars_eq_self_iff, ← toList_base, String.toList_inj]

/-- Stripping is complete exactly for the names whose marks stand in order. -/
theorem stripped_base_iff (s : String) : Stripped (base s) ↔ InOrder s := by
  rw [← bare_toList_base_iff, toList_base]
  refine ⟨fun h => ⟨_, h, spells_baseChars s.toList⟩, ?_⟩
  rintro ⟨name, hname, hspells⟩
  rwa [baseChars_of_spells hname hspells]

end TypeName

end SymbolAtlas
