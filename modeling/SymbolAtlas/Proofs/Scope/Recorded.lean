import Mathlib.Tactic
import SymbolAtlas.Scope.OfMask
import SymbolAtlas.Scope.OfTree

/-!
# Where scopes come from

An outline is read off a syntax tree or, where there is none, off a mask. Either way its scopes are
`Scope.Plain`: they open behind the beginning of the text, and their keywords stand on one line
(`Outline.IsRead.plain`). So nothing is open or pending where a text begins
(`contextAt_zero`).

* What a walk over a tree records is the scope of a namespace or type, or one of a member
  (`recorded_of_mem_ofTree`).
* What is recognised in a mask begins with a keyword and has its name behind that
  (`Heading.of_mem_all`).
-/

namespace SymbolAtlas

/-- The scope opens behind the beginning of the text, and its keyword stands on one line. -/
structure Scope.Plain (s : Scope) : Prop where
  openByte_pos : 0 < s.openByte
  keyword_line : '\n' ∉ s.keyword.toList

namespace Outline

/-! ### Scopes of a tree -/

/-- A scope that the walk over a tree records: of a namespace or type, or of a member. -/
inductive Recorded (source : Bytes) : Scope → Prop
  | container {path : List String} {n : Node} {s : Scope}
      (h : containerScope? source path n = some s) : Recorded source s
  | member {path : List String} {n : Node} {s : Scope}
      (h : s ∈ memberScopes source path n) : Recorded source s

mutual

theorem recorded_of_mem_scopesAt {source : Bytes} {s : Scope} :
    ∀ (n : Node) (path : List String), s ∈ (scopesAt source path n).1 → Recorded source s
  | .mk label children, path, hs => by
    simp only [scopesAt] at hs
    split_ifs at hs with hnamed hmember hcontainer htransparent
    · cases hs
    · exact .member hs
    · cases hscope : containerScope? source path (.mk label children) with
      | none => simp [hscope] at hs
      | some scope =>
        rw [hscope] at hs
        rcases List.mem_cons.1 hs with rfl | hs
        · exact .container hscope
        · cases hbody : (Node.mk label children).bodyIndex? with
          | none =>
            rw [hbody] at hs
            exact recorded_of_mem_scopesAmong children _ hs
          | some i =>
            rw [hbody] at hs
            exact recorded_of_mem_scopesBelowNth children i _ hs
    · exact recorded_of_mem_scopesAmong children path hs
    · cases hs

theorem recorded_of_mem_scopesAmong {source : Bytes} {s : Scope} :
    ∀ (ns : List Node) (path : List String), s ∈ scopesAmong source path ns → Recorded source s
  | [], _, hs => by cases hs
  | n :: rest, path, hs => by
    rw [scopesAmong] at hs
    rcases List.mem_append.1 hs with hs | hs
    · exact recorded_of_mem_scopesAt n path hs
    · exact recorded_of_mem_scopesAmong rest _ hs

theorem recorded_of_mem_scopesBelowNth {source : Bytes} {s : Scope} :
    ∀ (ns : List Node) (i : Nat) (path : List String),
      s ∈ scopesBelowNth source path i ns → Recorded source s
  | [], i, _, hs => by cases i <;> cases hs
  | .mk _ children :: _, 0, path, hs => recorded_of_mem_scopesAmong children path hs
  | _ :: rest, i + 1, path, hs => by
    rw [scopesBelowNth] at hs
    exact recorded_of_mem_scopesBelowNth rest i path hs

end

theorem recorded_of_mem_ofTree {root : Node} {source : Bytes} {s : Scope}
    (hs : s ∈ (ofTree root source).scopes) : Recorded source s :=
  recorded_of_mem_scopesAmong root.children [] hs

/-- A node with something to read in it is not empty. -/
theorem start_lt_stop_of_text {source : Bytes} {n : Node} (h : Str.trim (n.text source) ≠ "") :
    n.start < n.stop := by
  by_contra hle
  have hslice : source.slice n.start n.stop = [] := by
    rw [Bytes.slice, Nat.sub_eq_zero_of_le (Nat.le_of_not_lt hle), List.take_zero]
  apply h
  rw [Node.text, Bytes.textAt, hslice]
  rfl

theorem not_mem_keywordOf (name : String) : '\n' ∉ (keywordOf name).toList := by
  unfold keywordOf
  split <;> decide

theorem not_mem_memberKeyword (kind : Kind) : '\n' ∉ (memberKeyword kind).toList := by
  unfold memberKeyword
  split <;> decide

theorem plain_of_containerScope? {source : Bytes} {path : List String} {n : Node} {s : Scope}
    (h : containerScope? source path n = some s) : s.Plain := by
  simp only [containerScope?, Option.bind_eq_bind, Option.bind_eq_some_iff] at h
  obtain ⟨nameNode, -, h⟩ := h
  by_cases hname : Str.trim (nameNode.text source) = ""
  · rw [if_pos (beq_iff_eq.2 hname)] at h
    cases h
  · rw [if_neg (by simpa using hname)] at h
    by_cases hfile : (n.kind == .fileScopedNamespace) = true
    · -- A file-scoped namespace opens behind its name, which is not empty.
      rw [if_pos hfile] at h
      obtain rfl := Option.some.inj h
      exact ⟨Nat.zero_lt_of_lt (start_lt_stop_of_text hname), not_mem_keywordOf _⟩
    · rw [if_neg hfile] at h
      obtain ⟨place, hplace, h⟩ := Option.bind_eq_some_iff.1 h
      obtain ⟨body, -, rfl⟩ := Option.map_eq_some_iff.1 hplace
      obtain rfl := Option.some.inj h
      exact ⟨Nat.succ_pos _, not_mem_keywordOf _⟩

theorem plain_of_accessorScope? {source : Bytes} {path : List String} {accessor : Node} {s : Scope}
    (h : accessorScope? source path accessor = some s) : s.Plain := by
  simp only [accessorScope?, Option.bind_eq_bind, Option.bind_eq_some_iff, Option.some.injEq] at h
  obtain ⟨block, -, word, -, rfl⟩ := h
  exact ⟨Nat.succ_pos _, show '\n' ∉ "accessor".toList by decide⟩

theorem plain_of_mem_memberScopes {source : Bytes} {path : List String} {n : Node} {s : Scope}
    (h : s ∈ memberScopes source path n) : s.Plain := by
  simp only [memberScopes] at h
  generalize (if n.kind == .indexerDeclaration then some "this"
    else (n.field? "name").map fun c => Str.trim (c.text source)) = name? at h
  cases name? with
  | none => cases h
  | some name =>
    cases hbody : memberBody? n with
    | none => simp [hbody] at h
    | some body =>
      simp only [hbody] at h
      rcases List.mem_cons.1 h with rfl | h
      · exact ⟨Nat.succ_pos _, not_mem_memberKeyword _⟩
      · split at h
        · obtain ⟨accessor, -, haccessor⟩ := List.mem_filterMap.1 h
          exact plain_of_accessorScope? haccessor
        · cases h

/-- The walk over a tree records plain scopes only. -/
theorem plain_of_mem_ofTree {root : Node} {source : Bytes} {s : Scope}
    (hs : s ∈ (ofTree root source).scopes) : s.Plain := by
  cases recorded_of_mem_ofTree hs with
  | container h => exact plain_of_containerScope? h
  | member h => exact plain_of_mem_memberScopes h

end Outline

/-! ### Scopes of a mask -/

theorem Utf8.width_pos {cs : List Char} (h : cs ≠ []) : 0 < width cs := by
  rw [width, ← List.foldl_map, ← List.sum_eq_foldl]
  cases cs with
  | nil => exact absurd rfl h
  | cons c cs =>
    have := c.utf8Size_pos
    rw [List.map_cons, List.sum_cons]
    omega

namespace Heading

theorem of_word? {words : List String} {cs rest : List Char} {word : String}
    (h : word? words cs = some (word, rest)) : word ∈ words ∧ rest.length ≤ cs.length := by
  obtain ⟨found, hfound, h⟩ := Option.map_eq_some_iff.1 h
  obtain ⟨rfl, rfl⟩ := Prod.mk.inj h
  exact ⟨List.mem_of_find?_eq_some hfound, by simp⟩

theorem length_lt_of_spacing? {cs rest : List Char} (h : spacing? cs = some rest) :
    rest.length < cs.length := by
  simp only [spacing?, Option.ite_none_right_eq_some, Option.some.injEq] at h
  obtain ⟨hlt, rfl⟩ := h
  exact hlt

theorem length_le_of_named? {cs name rest : List Char} (h : named? cs = some (name, rest)) :
    rest.length ≤ cs.length := by
  rw [named?, Option.or_eq_some_iff] at h
  rcases h with h | ⟨-, h⟩
  · simp only [Option.bind_eq_bind, Option.bind_eq_some_iff, Option.some.injEq] at h
    obtain ⟨⟨word, afterWord⟩, hword, afterSpacing, hspacing, found, -, h⟩ := h
    obtain ⟨-, rfl⟩ := Prod.mk.inj h
    exact (length_lt_of_spacing? hspacing).le.trans (of_word? hword).2
  · obtain ⟨found, -, h⟩ := Option.map_eq_some_iff.1 h
    obtain ⟨-, rfl⟩ := Prod.mk.inj h
    exact le_rfl

/-- A heading begins with one of the keywords, and its name stands behind that. -/
theorem of_at? {offset size : Nat} {cs : List Char} {h : Heading}
    (hat : at? offset cs = some (h, size)) : h.keyword ∈ keywords ∧ 0 < h.nameStop := by
  simp only [at?, Option.bind_eq_bind, Option.bind_eq_some_iff, Option.some.injEq] at hat
  obtain ⟨⟨keyword, afterWord⟩, hword, afterSpacing, hspacing, ⟨name, rest⟩, hnamed, hat⟩ := hat
  obtain ⟨rfl, -⟩ := Prod.mk.inj hat
  have hlt : rest.length < cs.length :=
    calc rest.length ≤ afterSpacing.length := length_le_of_named? hnamed
      _ < afterWord.length := length_lt_of_spacing? hspacing
      _ ≤ cs.length := (of_word? hword).2
  have hbefore : cs.take (cs.length - rest.length) ≠ [] := by
    refine List.ne_nil_of_length_pos ?_
    rw [List.length_take]
    omega
  have := Utf8.width_pos hbefore
  exact ⟨(of_word? hword).1, by dsimp only; omega⟩

theorem mem_collect {h : Heading} (cs : List Char) {found : List Heading} {offset skip : Nat}
    {inWord : Bool} (hmem : h ∈ collect found offset skip inWord cs) :
    h ∈ found ∨ ∃ offset cs size, at? offset cs = some (h, size) := by
  induction cs generalizing found offset skip inWord with
  | nil => exact Or.inl (List.mem_reverse.1 hmem)
  | cons c rest ih =>
    cases skip with
    | succ skip =>
      rw [collect] at hmem
      exact ih hmem
    | zero =>
      rw [collect] at hmem
      cases hhere : (if inWord then none else at? offset (c :: rest)) with
      | none =>
        rw [hhere] at hmem
        exact ih hmem
      | some heading =>
        obtain ⟨heading, size⟩ := heading
        rw [hhere] at hmem
        rcases ih hmem with hin | hat
        · rcases List.mem_cons.1 hin with rfl | hin
          · exact Or.inr ⟨offset, c :: rest, size, (Option.ite_none_left_eq_some.1 hhere).2⟩
          · exact Or.inl hin
        · exact Or.inr hat

theorem of_mem_all {text : Bytes} {h : Heading} (hmem : h ∈ all text) :
    h.keyword ∈ keywords ∧ 0 < h.nameStop := by
  rcases mem_collect _ hmem with hin | ⟨offset, cs, size, hat⟩
  · cases hin
  · exact of_at? hat

end Heading

namespace Outline

theorem plain_of_headingScope? {m : Mask} {h : Heading} (hkeyword : h.keyword ∈ Heading.keywords)
    (hstop : 0 < h.nameStop) {s : Scope} (hs : headingScope? m h = some s) : s.Plain := by
  have hline : '\n' ∉ h.keyword.toList :=
    (show ∀ w ∈ Heading.keywords, '\n' ∉ w.toList by decide) h.keyword hkeyword
  simp only [headingScope?] at hs
  split at hs
  · split at hs
    · obtain ⟨-, hs⟩ := Option.ite_none_right_eq_some.1 hs
      obtain rfl := Option.some.inj hs
      exact ⟨hstop, hline⟩
    · obtain rfl := Option.some.inj hs
      exact ⟨Nat.succ_pos _, hline⟩
  · obtain rfl := Option.some.inj hs
    exact ⟨Nat.succ_pos _, hline⟩
  · obtain ⟨-, hs⟩ := Option.ite_none_right_eq_some.1 hs
    obtain rfl := Option.some.inj hs
    exact ⟨hstop, hline⟩
  · cases hs

theorem mem_qualify {scopes : List Scope} {s : Scope} (hs : s ∈ qualify scopes) :
    ∃ t ∈ scopes, ∃ name, s = { t with qualifiedName := name } := by
  obtain ⟨⟨t, i⟩, ht, rfl⟩ := List.mem_map.1 hs
  exact ⟨t, List.fst_mem_of_mem_zipIdx ht, _, rfl⟩

/-- Only plain scopes are recognised in a mask. -/
theorem plain_of_mem_ofMask {m : Mask} {s : Scope} (hs : s ∈ (ofMask m).scopes) : s.Plain := by
  obtain ⟨t, ht, name, rfl⟩ := mem_qualify hs
  obtain ⟨h, hmem, hscope⟩ := List.mem_filterMap.1 ht
  obtain ⟨hkeyword, hstop⟩ := Heading.of_mem_all hmem
  obtain ⟨hpos, hline⟩ := plain_of_headingScope? hkeyword hstop hscope
  exact ⟨hpos, hline⟩

/-! ### Outlines and contexts -/

/-- The outline was read off a syntax tree or off a mask. -/
def IsRead (o : Outline) : Prop :=
  (∃ root source, o = ofTree root source) ∨ ∃ m, o = ofMask m

theorem IsRead.plain {o : Outline} (h : o.IsRead) {s : Scope} (hs : s ∈ o.scopes) : s.Plain := by
  rcases h with ⟨root, source, rfl⟩ | ⟨m, rfl⟩
  · exact plain_of_mem_ofTree hs
  · exact plain_of_mem_ofMask hs

/-- A frame of a context is that of a scope, open or pending. -/
theorem mem_contextAt {o : Outline} {offset : Nat} {f : Frame}
    (hf : f ∈ (o.contextAt offset).frames) : ∃ s ∈ o.scopes, ∃ pending, f = s.frame pending := by
  obtain ⟨s, hs, hframe⟩ := List.mem_filterMap.1 hf
  unfold Scope.frameAt? at hframe
  split_ifs at hframe
  · exact ⟨s, hs, false, (Option.some.inj hframe).symm⟩
  · exact ⟨s, hs, true, (Option.some.inj hframe).symm⟩

/-- Nothing is open or pending at the beginning of a text. -/
theorem contextAt_zero {o : Outline} (h : ∀ s ∈ o.scopes, 0 < s.openByte) :
    (o.contextAt 0).frames = [] := by
  refine List.filterMap_eq_nil_iff.2 fun s hs => ?_
  have hopen : s.isOpenAt 0 = false := by simp [Scope.isOpenAt, Nat.ne_of_gt (h s hs)]
  have hpending : s.isPendingAt 0 = false := by simp [Scope.isPendingAt]
  simp [Scope.frameAt?, hopen, hpending]

end Outline

end SymbolAtlas
