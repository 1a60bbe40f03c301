import Mathlib.Tactic
import SymbolAtlas.Proofs.Scope.Recorded
import SymbolAtlas.Proofs.Tree.Nodes

/-!
# How the outline of a tree is read

What a node adds to the outline, and where the outline goes on below it, is said once here:
`ScopesAt` has one case for each thing that a node can be to the outline, and `OpensContainer` all
that is known of the scope of a namespace or type.
-/

namespace SymbolAtlas.Outline

/-- All that is known of the scope that a namespace or type opens. -/
structure OpensContainer (source : Bytes) (path : List String) (n : Node) (s : Scope) : Prop where
  name : n.fieldText? source "name" = some s.name
  qualifiedName : s.qualifiedName = Dotted.join (path ++ [s.name])
  kind : s.kind = if n.kind.isNamespace then .nameSpace else .type
  keyword : s.keyword = keywordOf n.name
  fileScoped : s.fileScoped = (n.kind == .fileScopedNamespace)
  startLine : s.startLine = n.startLine source
  startByte : s.startByte = n.start
  /-- A file-scoped namespace goes from its name to the end of the text. -/
  fileScoped_bytes : n.kind = .fileScopedNamespace → ∃ c, n.field? "name" = some c ∧
    c.start < c.stop ∧ s.openByte = c.stop ∧ s.closeByte = source.length
  /-- All others go from brace to brace. -/
  body_bytes : n.kind ≠ .fileScopedNamespace → ∃ b, n.body? = some b ∧
    s.openByte = b.start + 1 ∧ s.closeByte = min (b.stop - 1) source.length
  endLine : s.endLine =
    if n.kind == .fileScopedNamespace then source.lineStarts.length else n.endLine source

theorem opensContainer_of_containerScope? {source : Bytes} {path : List String} {n : Node}
    {s : Scope} (h : containerScope? source path n = some s) : OpensContainer source path n s := by
  simp only [containerScope?, Option.bind_eq_bind, Option.bind_eq_some_iff] at h
  obtain ⟨c, hc, h⟩ := h
  obtain ⟨hname, h⟩ := Option.ite_none_left_eq_some.1 h
  rw [beq_iff_eq] at hname
  have hfield : n.fieldText? source "name" = some (Str.trim (c.text source)) := by
    simp [Node.fieldText?, hc, hname]
  by_cases hfile : n.kind = .fileScopedNamespace
  · rw [if_pos (beq_iff_eq.2 hfile)] at h
    obtain rfl := Option.some.inj h
    exact ⟨hfield, rfl, rfl, rfl, rfl, rfl, rfl,
      fun _ => ⟨c, hc, start_lt_stop_of_text hname, rfl, rfl⟩, fun hne => absurd hfile hne,
      (if_pos (beq_iff_eq.2 hfile)).symm⟩
  · rw [if_neg (by simpa using hfile)] at h
    obtain ⟨place, hplace, h⟩ := Option.bind_eq_some_iff.1 h
    obtain ⟨b, hb, rfl⟩ := Option.map_eq_some_iff.1 hplace
    obtain rfl := Option.some.inj h
    exact ⟨hfield, rfl, rfl, rfl, rfl, rfl, rfl, fun heq => absurd heq hfile,
      fun _ => ⟨b, hb, rfl, rfl⟩, (if_neg (by simpa using hfile)).symm⟩

theorem kind_of_mem_memberScopes {source : Bytes} {path : List String} {n : Node} {s : Scope}
    (hs : s ∈ memberScopes source path n) : s.kind = .member := by
  simp only [memberScopes] at hs
  split at hs
  · rcases List.mem_cons.1 hs with rfl | hs
    · rfl
    · split at hs
      · obtain ⟨accessor, -, haccessor⟩ := List.mem_filterMap.1 hs
        simp only [accessorScope?, Option.bind_eq_bind, Option.bind_eq_some_iff,
          Option.some.injEq] at haccessor
        obtain ⟨block, -, word, -, rfl⟩ := haccessor
        rfl
      · cases hs
  · cases hs

/-- What a node is to the outline: the scopes at and below it, and the path behind it. -/
inductive ScopesAt (source : Bytes) (path : List String) (n : Node) :
    List Scope × List String → Prop
  | nothing (hnone : n.label.named = true → (n.kind.isNamespace || n.kind.isType) = true →
      containerScope? source path n = none) : ScopesAt source path n ([], path)
  | member (hkind : (n.kind.isMember || n.kind == .eventDeclaration) = true) :
      ScopesAt source path n (memberScopes source path n, path)
  | container {s : Scope} (hnamed : n.label.named = true)
      (hkind : (n.kind.isNamespace || n.kind.isType) = true)
      (hs : OpensContainer source path n s) :
      ScopesAt source path n (s :: scopesAmong source (path ++ [s.name]) n.held,
        if s.fileScoped then path ++ [s.name] else path)
  | transparent (hnamed : n.label.named = true) (hkind : isTransparent n.kind = true) :
      ScopesAt source path n (scopesAmong source path n.children, path)

theorem scopesBelowNth_eq (source : Bytes) (path : List String) (i : Nat) (ns : List Node) :
    scopesBelowNth source path i ns =
      (ns[i]?.map fun n => scopesAmong source path n.children).getD [] := by
  induction ns generalizing i with
  | nil => cases i <;> rfl
  | cons n ns ih =>
    cases n with
    | mk label children =>
      cases i with
      | zero => rw [scopesBelowNth]; rfl
      | succ i => rw [scopesBelowNth, ih, List.getElem?_cons_succ]

theorem scopesAt_spec (source : Bytes) (path : List String) (n : Node) :
    ScopesAt source path n (scopesAt source path n) := by
  cases n with
  | mk label children =>
    rw [scopesAt]
    dsimp only
    split_ifs with hnamed hmember hcontainer htransparent
    · exact .nothing fun hlabel => absurd hlabel (by simpa [Node.label] using hnamed)
    · exact .member hmember
    · replace hnamed : label.named = true := by simpa using hnamed
      cases hscope : containerScope? source path (.mk label children) with
      | none => exact .nothing fun _ _ => hscope
      | some s =>
        have hcase : ScopesAt source path (.mk label children) _ :=
          .container hnamed hcontainer (opensContainer_of_containerScope? hscope)
        cases hindex : (Node.mk label children).bodyIndex? with
        | none =>
          rw [Node.held, Node.body?_eq, hindex] at hcase
          exact hcase
        | some i =>
          obtain ⟨b, hb, hbody⟩ := Node.getElem?_of_bodyIndex? hindex
          have hbelow : scopesBelowNth source (path ++ [s.name]) i children =
              scopesAmong source (path ++ [s.name]) b.children := by
            rw [scopesBelowNth_eq, show children[i]? = some b from hb]
            rfl
          rw [Node.held_of_body? hbody, ← hbelow] at hcase
          exact hcase
    · replace hnamed : label.named = true := by simpa using hnamed
      exact .transparent hnamed htransparent
    · exact .nothing fun _ hkind => absurd hkind hcontainer

/-- Behind a node that is no file-scoped namespace the names around are the same as before it. -/
theorem snd_scopesAt_of_ne {source : Bytes} {path : List String} {n : Node}
    (h : n.kind ≠ .fileScopedNamespace) : (scopesAt source path n).2 = path := by
  have hcase := scopesAt_spec source path n
  generalize scopesAt source path n = result at hcase
  cases hcase with
  | nothing | member | transparent => rfl
  | container _ _ hs => simp [hs.fileScoped, h]

end SymbolAtlas.Outline
