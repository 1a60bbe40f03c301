import Mathlib.Tactic
import SymbolAtlas.Scope.Basic

/-!
# Nested scopes

A list of scopes is `Nested` if behind each scope come first those inside of it and then those
behind it. Nothing is said of a place there. Yet for every place the scopes around it can be read
off:

* each of them is open where a later one is open or pending, and the later one lies inside
  (`Nested.pairwise_around`);
* the qualified name of each is made of the names of those before it
  (`Nested.qualifiedName_around`).

So a context names the innermost namespace or type around its place (`Nested.situates`).
-/

namespace SymbolAtlas

/-- What may be declared in a scope: anything in a namespace, no namespace in a type, and in a
member nothing but parts of the member. -/
def ScopeKind.admits : ScopeKind → ScopeKind → Bool
  | .nameSpace, _ => true
  | .type, inner => inner != .nameSpace
  | .member, inner => inner == .member

theorem ScopeKind.admits_trans {a b c : ScopeKind} (hab : a.admits b = true)
    (hbc : b.admits c = true) : a.admits c = true := by
  cases a <;> cases b <;> cases c <;> simp_all [admits]

namespace Scope

/-- The scope is open or pending at the offset. -/
def surrounds (s : Scope) (offset : Nat) : Bool := s.isOpenAt offset || s.isPendingAt offset

theorem isPendingAt_of_isOpenAt {s : Scope} {offset : Nat} (h : s.isOpenAt offset = true) :
    s.isPendingAt offset = false := by
  simp only [isOpenAt, Bool.and_eq_true, decide_eq_true_eq] at h
  simp only [isPendingAt, Bool.and_eq_false_iff, decide_eq_false_iff_not]
  omega

/-- The scope is declared between the opening of another one and its end. -/
structure LiesIn (inner outer : Scope) : Prop where
  start : outer.openByte ≤ inner.startByte + 1
  close : inner.closeByte ≤ outer.closeByte

/-- The scope may stand in one of kind `outer`, between the offsets `lo` and `hi`. -/
structure Fits (outer : ScopeKind) (lo hi : Nat) (s : Scope) : Prop where
  kind : outer.admits s.kind = true
  lo_le : lo ≤ s.startByte
  start_lt : s.startByte < s.openByte
  open_le : s.openByte ≤ s.closeByte + 1
  close_lt : s.closeByte < hi

namespace Fits

variable {outer : ScopeKind} {lo hi : Nat} {s t : Scope}

theorem mono (h : s.Fits outer lo hi) {lo' hi' : Nat} (hlo : lo' ≤ lo) (hhi : hi ≤ hi') :
    s.Fits outer lo' hi' :=
  { h with lo_le := hlo.trans h.lo_le, close_lt := h.close_lt.trans_le hhi }

/-- What fits inside a scope fits where the scope does. -/
theorem inner (h : s.Fits outer lo hi) (ht : t.Fits s.kind (s.openByte - 1) (s.closeByte + 1)) :
    t.Fits outer lo hi where
  kind := ScopeKind.admits_trans h.kind ht.kind
  lo_le := by have := h.lo_le; have := h.start_lt; have := ht.lo_le; omega
  start_lt := ht.start_lt
  open_le := ht.open_le
  close_lt := (Nat.lt_succ_iff.1 ht.close_lt).trans_lt h.close_lt

theorem liesIn (ht : t.Fits s.kind (s.openByte - 1) (s.closeByte + 1)) : t.LiesIn s where
  start := by have := ht.lo_le; omega
  close := Nat.lt_succ_iff.1 ht.close_lt

theorem surrounds_iff (h : s.Fits outer lo hi) {offset : Nat} :
    s.surrounds offset = true ↔ s.startByte < offset ∧ offset ≤ s.closeByte := by
  have := h.start_lt
  have := h.open_le
  simp only [surrounds, isOpenAt, isPendingAt, Bool.or_eq_true, Bool.and_eq_true, decide_eq_true_eq]
  omega

/-- A scope is open wherever one inside of it is open or pending. -/
theorem isOpenAt_of_surrounds (ht : t.Fits s.kind (s.openByte - 1) (s.closeByte + 1))
    {offset : Nat} (h : t.surrounds offset = true) : s.isOpenAt offset = true := by
  obtain ⟨hstart, hclose⟩ := ht.surrounds_iff.1 h
  have := ht.lo_le
  have := ht.close_lt
  simp only [isOpenAt, Bool.and_eq_true, decide_eq_true_eq]
  omega

end Fits

end Scope

/-- Scopes in source order between two offsets, as they stand in a scope of kind `outer`. The path
holds the names around them. -/
inductive Nested : ScopeKind → List String → Nat → Nat → List Scope → Prop
  | nil {outer : ScopeKind} {path : List String} {lo hi : Nat} : Nested outer path lo hi []
  | cons {outer : ScopeKind} {path : List String} {lo hi : Nat} {s : Scope}
      {inner rest : List Scope} (hs : s.Fits outer lo hi)
      (hname : s.qualifiedName = Dotted.join (path ++ [s.name]))
      (hinner : Nested s.kind (path ++ [s.name]) (s.openByte - 1) (s.closeByte + 1) inner)
      (hrest : Nested outer path (s.closeByte + 1) hi rest) :
      Nested outer path lo hi (s :: (inner ++ rest))

namespace Nested

variable {outer : ScopeKind} {path : List String} {lo mid hi : Nat} {scopes more : List Scope}

/-! ### Putting nested scopes together -/

theorem mono (h : Nested outer path lo hi scopes) {lo' hi' : Nat} (hlo : lo' ≤ lo)
    (hhi : hi ≤ hi') : Nested outer path lo' hi' scopes := by
  induction h generalizing lo' with
  | nil => exact .nil
  | cons hs hname hinner hrest _ ih => exact .cons (hs.mono hlo hhi) hname hinner (ih le_rfl hhi)

theorem append (h : Nested outer path lo mid scopes) (hmore : Nested outer path mid hi more)
    (hlo : lo ≤ mid) (hhi : mid ≤ hi) : Nested outer path lo hi (scopes ++ more) := by
  induction h with
  | nil => exact hmore.mono hlo le_rfl
  | cons hs hname hinner hrest _ ih =>
    rw [List.cons_append, List.append_assoc]
    exact .cons (hs.mono le_rfl hhi) hname hinner (ih hmore hs.close_lt hhi)

theorem singleton {s : Scope} {inner : List Scope} (hs : s.Fits outer lo hi)
    (hname : s.qualifiedName = Dotted.join (path ++ [s.name]))
    (hinner : Nested s.kind (path ++ [s.name]) (s.openByte - 1) (s.closeByte + 1) inner) :
    Nested outer path lo hi (s :: inner) := by
  rw [← List.append_nil inner]
  exact .cons hs hname hinner .nil

/-! ### The scopes around a place -/

theorem fits (h : Nested outer path lo hi scopes) {s : Scope} (hs : s ∈ scopes) :
    s.Fits outer lo hi := by
  induction h with
  | nil => cases hs
  | cons hfits _ _ _ ihinner ihrest =>
    rcases List.mem_cons.1 hs with rfl | hs
    · exact hfits
    · rcases List.mem_append.1 hs with hs | hs
      · exact hfits.inner (ihinner hs)
      · have := hfits.lo_le
        have := hfits.start_lt
        have := hfits.open_le
        exact (ihrest hs).mono (by omega) le_rfl

/-- Of a scope, those inside and those behind it, only the first two surround a place together. -/
theorem filter_surrounds {s : Scope} {inner rest : List Scope} {offset : Nat}
    (hs : s.Fits outer lo hi)
    (hinner : Nested s.kind (path ++ [s.name]) (s.openByte - 1) (s.closeByte + 1) inner)
    (hrest : Nested outer path (s.closeByte + 1) hi rest) :
    (s :: (inner ++ rest)).filter (·.surrounds offset) =
      if s.surrounds offset then s :: inner.filter (·.surrounds offset)
      else rest.filter (·.surrounds offset) := by
  split
  · next hin =>
    have hnone : rest.filter (·.surrounds offset) = [] := by
      refine List.filter_eq_nil_iff.2 fun t ht hsurrounds => ?_
      have hfits := hrest.fits ht
      have := hfits.lo_le
      have := (hfits.surrounds_iff.1 hsurrounds).1
      have := (hs.surrounds_iff.1 hin).2
      omega
    rw [List.filter_cons, if_pos hin, List.filter_append, hnone, List.append_nil]
  · next hout =>
    have hnone : inner.filter (·.surrounds offset) = [] := by
      refine List.filter_eq_nil_iff.2 fun t ht hsurrounds => hout ?_
      rw [Scope.surrounds, (hinner.fits ht).isOpenAt_of_surrounds hsurrounds, Bool.true_or]
    rw [List.filter_cons, if_neg hout, List.filter_append, hnone, List.nil_append]

theorem pairwise_around (h : Nested outer path lo hi scopes) (offset : Nat) :
    (scopes.filter (·.surrounds offset)).Pairwise fun s t =>
      s.isOpenAt offset = true ∧ t.LiesIn s ∧ s.kind.admits t.kind = true := by
  induction h with
  | nil => exact .nil
  | cons hs _ hinner hrest ihinner ihrest =>
    rw [filter_surrounds hs hinner hrest]
    split
    · refine .cons (fun t ht => ?_) ihinner
      obtain ⟨ht, hsurrounds⟩ := List.mem_filter.1 ht
      have hfits := hinner.fits ht
      exact ⟨hfits.isOpenAt_of_surrounds hsurrounds, hfits.liesIn, hfits.kind⟩
    · exact ihrest

theorem qualifiedName_around (h : Nested outer path lo hi scopes) {offset : Nat}
    {front back : List Scope} {s : Scope}
    (hs : scopes.filter (·.surrounds offset) = front ++ s :: back) :
    s.qualifiedName = Dotted.join (path ++ front.map (·.name) ++ [s.name]) := by
  -- A scope that surrounds the place is the first of `front`, and the path grows by its name.
  induction h generalizing front with
  | nil => simp at hs
  | cons hfits hname hinner hrest ihinner ihrest =>
    rw [filter_surrounds hfits hinner hrest] at hs
    split at hs
    · cases front with
      | nil =>
        obtain rfl := (List.cons.inj hs).1
        simpa using hname
      | cons t front =>
        obtain ⟨rfl, hback⟩ := List.cons.inj hs
        simpa using ihinner hback
    · exact ihrest hs

end Nested

/-! ### Contexts -/

theorem Dotted.join_join {names : List String} (h : names ≠ []) (more : List String) :
    join (join names :: more) = join (names ++ more) := by
  cases more with
  | nil => rw [List.append_nil]; rfl
  | cons m more =>
    rw [join, String.intercalate_cons_cons, join, join,
      String.intercalate_append_of_ne_nil h (List.cons_ne_nil m more)]

theorem Context.qualifiedPath_eq (c : Context) :
    c.qualifiedPath = Dotted.join (c.namespaceNames ++ c.typeNames) := by
  rw [qualifiedPath, namespaceName?]
  by_cases h : c.namespaceNames = []
  · simp [h]
  · rw [if_neg (by simpa using h), Option.toList_some, List.singleton_append, Dotted.join_join h]

/-- Where no scope stands inside one that does not admit it, namespaces come first, then types, then
members. -/
theorem ScopeKind.split_of_admits {scopes : List Scope}
    (h : scopes.Pairwise fun s t => s.kind.admits t.kind = true) :
    scopes.filter (·.isContainer) =
        scopes.filter (·.kind == .nameSpace) ++ scopes.filter (·.kind == .type) ∧
      scopes = scopes.filter (·.isContainer) ++ scopes.filter (·.kind == .member) := by
  induction h with
  | nil => exact ⟨rfl, rfl⟩
  | @cons s scopes hs _ ih =>
    cases hkind : s.kind with
    | nameSpace => simpa [Scope.isContainer, hkind] using ih
    | type =>
      have hnone : scopes.filter (·.kind == .nameSpace) = [] :=
        List.filter_eq_nil_iff.2 fun t ht => by simpa [hkind, admits] using hs t ht
      simpa [Scope.isContainer, hkind, hnone] using ih
    | member =>
      have hmember (t : Scope) (ht : t ∈ scopes) : t.kind = .member := by
        simpa [hkind, admits] using hs t ht
      have hnone {kind : ScopeKind} (hne : kind ≠ .member) : scopes.filter (·.kind == kind) = [] :=
        List.filter_eq_nil_iff.2 fun t ht => by simpa [hmember t ht] using Ne.symm hne
      have hall : scopes.filter (·.kind == .member) = scopes :=
        List.filter_eq_self.2 fun t ht => by simp [hmember t ht]
      simpa [Scope.isContainer, hkind, hall, hnone] using hmember

namespace Outline

/-- The scopes open or pending at an offset. -/
def around (o : Outline) (offset : Nat) : List Scope := o.scopes.filter (·.surrounds offset)

/-- The last namespace or type that is open or pending at an offset. -/
def innermost? (o : Outline) (offset : Nat) : Option Scope :=
  ((o.around offset).filter (·.isContainer)).getLast?

/-- The context of an offset says which scopes are around it. -/
structure Situates (o : Outline) (offset : Nat) : Prop where
  /-- The scopes open or pending are listed, and which of them are pending. -/
  frames : (o.contextAt offset).frames =
    (o.around offset).map fun s => s.frame (s.isPendingAt offset)
  /-- Each lies inside all before it. -/
  inside : (o.around offset).Pairwise fun outer inner => inner.LiesIn outer
  /-- Only the last one may be pending. -/
  pending : ∀ f ∈ (o.contextAt offset).frames.dropLast, f.pending = false
  /-- The qualified name is that of the innermost namespace or type. -/
  path : (o.contextAt offset).qualifiedPath =
    (o.innermost? offset).elim "" Scope.qualifiedName

theorem frames_contextAt (o : Outline) (offset : Nat) :
    (o.contextAt offset).frames =
      (o.around offset).map fun s => s.frame (s.isPendingAt offset) := by
  have hframe (s : Scope) : s.frameAt? offset =
      if s.surrounds offset then some (s.frame (s.isPendingAt offset)) else none := by
    unfold Scope.frameAt? Scope.surrounds
    by_cases hopen : s.isOpenAt offset = true
    · simp [hopen, Scope.isPendingAt_of_isOpenAt hopen]
    · cases hpending : s.isPendingAt offset <;> simp [hopen]
  simp only [contextAt, around, hframe]
  rw [← List.filterMap_eq_map, List.filterMap_filter]
  rfl

/-- The frames of one kind have the names of the scopes of that kind. -/
theorem names_contextAt (o : Outline) (offset : Nat) (kind : ScopeKind) :
    ((o.contextAt offset).frames.filter (·.kind == kind)).map (·.name) =
      ((o.around offset).filter (·.kind == kind)).map (·.name) := by
  rw [o.frames_contextAt, List.filter_map, List.map_map]
  rfl

end Outline

/-- The context of a place names the innermost namespace or type around it, if scopes are nested. -/
theorem Nested.situates {o : Outline} {lo hi : Nat} (h : Nested .nameSpace [] lo hi o.scopes)
    (offset : Nat) : o.Situates offset := by
  have hpairwise : (o.around offset).Pairwise _ := h.pairwise_around offset
  refine ⟨o.frames_contextAt offset, hpairwise.imp fun hst => hst.2.1, ?_, ?_⟩
  · intro f hf
    rw [o.frames_contextAt, ← List.map_dropLast] at hf
    obtain ⟨s, hs, rfl⟩ := List.mem_map.1 hf
    have hne : o.around offset ≠ [] := fun hnil => by simp [hnil] at hs
    rw [← List.dropLast_append_getLast hne, List.pairwise_append] at hpairwise
    have hopen := (hpairwise.2.2 s hs _ (List.mem_singleton_self _)).1
    exact Scope.isPendingAt_of_isOpenAt hopen
  · obtain ⟨hcontainers, hall⟩ := ScopeKind.split_of_admits (hpairwise.imp fun hst => hst.2.2)
    have hpath : (o.contextAt offset).qualifiedPath =
        Dotted.join (((o.around offset).filter (·.isContainer)).map (·.name)) := by
      rw [Context.qualifiedPath_eq, Context.namespaceNames, Context.typeNames, o.names_contextAt,
        o.names_contextAt, ← List.map_append, ← hcontainers]
    rw [hpath, Outline.innermost?]
    rcases List.eq_nil_or_concat ((o.around offset).filter (·.isContainer)) with
      hnil | ⟨front, s, hs⟩
    · rw [hnil]
      rfl
    · rw [List.concat_eq_append] at hs
      rw [hs, List.getLast?_concat, Option.elim_some, List.map_append]
      rw [hs, List.append_assoc] at hall
      exact (h.qualifiedName_around hall).symm

end SymbolAtlas
