import Mathlib.Tactic
import SymbolAtlas.Binding.Basic

/-!
# What a memo answers

A memo answers a question about a name by what was found when the name was first asked for in the
same member (`Memo.answers_eq_map_first`). Whether that is also the answer to the question itself
depends on the places of the two. What a name means may change inside a member, where a local
variable of that name is declared again. If no such declaration begins between two questions for the
same entry of the table, all answers are those of a resolver that is asked for the first time
(`Memo.answers_eq_map_fresh`). Else they may differ: in `Memo.answers_shadowed` the variable of one
block is taken for that of another.

The sites that questions come from belong to one tree, in which the address of a site determines the
site (`Site.eq_of_address_eq`), and hence the entry of a question the members around it.
-/

namespace SymbolAtlas

/-! ### Sites of a tree -/

namespace Site

/-- The way down leads from the root of a tree to a node of it. -/
def LeadsTo (root : Node) : List (Nat × Node) → Node → Prop
  | [], n => n = root
  | (i, parent) :: above, n => parent.children[i]? = some n ∧ LeadsTo root above parent

/-- The site belongs to the tree. -/
def IsIn (root : Node) (s : Site) : Prop := LeadsTo root s.above s.node

/-- In a tree, the address of a site determines the site. -/
theorem eq_of_address_eq {root : Node} {s t : Site} (hs : s.IsIn root) (ht : t.IsIn root)
    (h : s.address = t.address) : s = t := by
  obtain ⟨n, above⟩ := s
  obtain ⟨m, below⟩ := t
  simp only [address] at h
  induction above generalizing n m below with
  | nil =>
    obtain rfl : below = [] := by simpa using h.symm
    obtain rfl : n = root := hs
    obtain rfl : m = n := ht
    rfl
  | cons step above ih =>
    cases below with
    | nil => simp at h
    | cons step' below =>
      obtain ⟨i, parent⟩ := step
      obtain ⟨j, parent'⟩ := step'
      obtain ⟨rfl, hways⟩ : i = j ∧ above.map (·.1) = below.map (·.1) := by simpa using h
      obtain ⟨hn, habove⟩ := hs
      obtain ⟨hm, hbelow⟩ := ht
      obtain ⟨rfl, rfl⟩ : parent = parent' ∧ above = below := by
        simpa using ih parent habove parent' below hbelow hways
      obtain rfl : n = m := Option.some.inj (hn.symm.trans hm)
      rfl

mutual

theorem isIn_of_mem_preorderFrom {root : Node} {stop enter : Node → Bool} {s : Site} :
    ∀ {above : List (Nat × Node)} (n : Node), LeadsTo root above n →
      s ∈ preorderFrom stop enter above n → s.IsIn root
  | above, .mk label children, h, hs => by
    rw [preorderFrom] at hs
    rcases List.mem_cons.1 hs with rfl | hs
    · exact h
    · split at hs
      · cases hs
      · exact isIn_of_mem_preorderIn children h rfl hs

theorem isIn_of_mem_preorderIn {root : Node} {stop enter : Node → Bool} {s : Site} :
    ∀ {above : List (Nat × Node)} {parent : Node} {i : Nat} (ns : List Node),
      LeadsTo root above parent → parent.children.drop i = ns →
      s ∈ preorderIn stop enter above parent i ns → s.IsIn root
  | _, _, _, [], _, _, hs => by simp [preorderIn] at hs
  | above, parent, i, n :: ns, h, hdrop, hs => by
    rw [preorderIn] at hs
    rcases List.mem_append.1 hs with hs | hs
    · split at hs
      · have hn : parent.children[i]? = some n := by
          rw [← List.head?_drop, hdrop, List.head?_cons]
        have hleads : LeadsTo root ((i, parent) :: above) n := ⟨hn, h⟩
        exact isIn_of_mem_preorderFrom n hleads hs
      · cases hs
    · refine isIn_of_mem_preorderIn ns h ?_ hs
      simpa using congrArg List.tail hdrop

end

/-- The sites that a walk through a tree comes by belong to the tree. -/
theorem isIn_of_mem_preorder {root : Node} {stop : Node → Bool} {s : Site}
    (h : s ∈ preorder root stop) : s.IsIn root := by
  have hroot : LeadsTo root [] root := rfl
  exact isIn_of_mem_preorderFrom root hroot h

theorem isIn_of_mem_membersAround {root n : Node} {above : List (Nat × Node)} {m : Site}
    (h : LeadsTo root above n) (hm : m ∈ membersAround above) : m.IsIn root := by
  induction above generalizing n with
  | nil => cases hm
  | cons step above ih =>
    obtain ⟨i, parent⟩ := step
    rw [membersAround] at hm
    split at hm
    · rcases List.mem_cons.1 hm with rfl | hm
      · exact h.2
      · exact ih h.2 hm
    · split at hm
      · cases hm
      · exact ih h.2 hm

/-- The members around a place are the innermost one and those around that. -/
theorem membersAround_of_head? {above : List (Nat × Node)} {m : Site}
    (h : (membersAround above).head? = some m) :
    membersAround above = m :: membersAround m.above := by
  induction above with
  | nil => cases h
  | cons step above ih =>
    obtain ⟨i, n⟩ := step
    rw [membersAround] at h ⊢
    split at h
    · next hmember =>
      obtain rfl := Option.some.inj h
      rw [if_pos hmember]
    · next hmember =>
      rw [if_neg hmember]
      split at h
      · cases h
      · next hother =>
        rw [if_neg hother]
        exact ih h

/-- Sites in the same member are in the same members. -/
theorem membersAround_eq {root : Node} {s t : Site} (hs : s.IsIn root) (ht : t.IsIn root)
    (h : s.enclosingMember?.map address = t.enclosingMember?.map address) :
    membersAround s.above = membersAround t.above := by
  unfold enclosingMember? at h
  cases hmember : (membersAround s.above).head? with
  | none =>
    rw [hmember, Option.map_none, eq_comm, Option.map_eq_none_iff, List.head?_eq_none_iff] at h
    rw [List.head?_eq_none_iff.1 hmember, h]
  | some m =>
    rw [hmember, Option.map_some, eq_comm, Option.map_eq_some_iff] at h
    obtain ⟨m', hmember', haddress⟩ := h
    have hm := isIn_of_mem_membersAround hs (List.mem_of_mem_head? hmember)
    have hm' := isIn_of_mem_membersAround ht (List.mem_of_mem_head? hmember')
    obtain rfl := eq_of_address_eq hm' hm haddress
    rw [membersAround_of_head? hmember, membersAround_of_head? hmember']

end Site

/-! ### The closest declaration -/

namespace Resolver

/-- The first declaration counts whether it stands before the place or not, so only the others
matter. -/
theorem closest?_cons (offset : Nat) (d : Site × Option String) (ds : List (Site × Option String)) :
    closest? offset (d :: ds) =
      some ((ds.filter fun d => d.1.node.start < offset).getLast?.getD d) := by
  rw [closest?, List.filter_cons]
  split
  · rw [List.getLast?_cons]
    rfl
  · cases (ds.filter fun d => d.1.node.start < offset).getLast? <;> rfl

theorem closest?_congr {o o' : Nat} {found : List (Site × Option String)}
    (h : ∀ d ∈ found.tail, (d.1.node.start < o ↔ d.1.node.start < o')) :
    closest? o found = closest? o' found := by
  cases found with
  | nil => rfl
  | cons d ds =>
    have hfilter : (ds.filter fun d => d.1.node.start < o) =
        ds.filter fun d => d.1.node.start < o' :=
      List.filter_congr fun d hd => by simp [h d hd]
    rw [closest?_cons, closest?_cons, hfilter]

/-- The declarations of a name in the innermost member around a site that has any. -/
def localsAround (r : Resolver) (name : String) (s : Site) : List (Site × Option String) :=
  (((Site.membersAround s.above).map (localsIn r.source name)).find? (!·.isEmpty)).getD []

theorem localAt?_eq (r : Resolver) (name : String) (s : Site) :
    r.localAt? name s = (closest? s.node.start (r.localsAround name s)).map fun (d, declared) =>
      r.localBinding name d declared := by
  unfold localAt? localsAround
  induction Site.membersAround s.above with
  | nil => rfl
  | cons m ms ih =>
    rw [List.findSome?_cons, List.map_cons, List.find?_cons]
    cases hlocals : localsIn r.source name m with
    | nil => exact ih
    | cons d ds =>
      rw [closest?_cons]
      simp only [List.isEmpty_cons, Bool.not_false, Option.getD_some, closest?_cons,
        Option.map_some]

/-- A name means the same at two sites in the same members, if it is a field or if the member that
declares it does not declare it again between the two. -/
theorem lookup_congr {r : Resolver} {name : String} {s t : Site}
    (hmembers : Site.membersAround s.above = Site.membersAround t.above)
    (h : (r.fields.find? (·.name == name)).isSome ∨
      ∀ d ∈ (r.localsAround name t).tail,
        (d.1.node.start < s.node.start ↔ d.1.node.start < t.node.start)) :
    r.lookup name s = r.lookup name t := by
  rcases h with hfield | hagain
  · obtain ⟨b, hb⟩ := Option.isSome_iff_exists.1 hfield
    simp [lookup, hb]
  · have haround : r.localsAround name s = r.localsAround name t := by
      rw [localsAround, localsAround, hmembers]
    have hlocal : r.localAt? name s = r.localAt? name t := by
      rw [localAt?_eq, localAt?_eq, haround, closest?_congr hagain]
    have hparameter : r.parameterAt? name s = r.parameterAt? name t := by
      rw [parameterAt?, parameterAt?, hmembers]
    rw [lookup, lookup, hlocal, hparameter]

end Resolver

/-! ### Questions to one memo -/

/-- What does a name mean at a site? -/
structure Question where
  name : String
  site : Site

namespace Question

/-- The entry of the table that answers a question. -/
def key (q : Question) : Option (List Nat) × String :=
  (q.site.enclosingMember?.map Site.address, Memo.plainName q.name)

/-- The answer of a resolver that has not been asked before. -/
def fresh (r : Resolver) (q : Question) : Option Binding := (Memo.resolve r {} q.name q.site).1

/-- The first of the questions that ask for the same entry as `q`, which is one of them. -/
def firstIn (qs : List Question) (q : Question) : Question :=
  (qs.find? (·.key == q.key)).getD q

/-- A second question asks for the same as a first one of the same entry: the name is a field, or
the member that declares it does not declare it again between them. -/
def Repeats (r : Resolver) (p q : Question) : Prop :=
  (r.fields.find? (·.name == Memo.plainName q.name)).isSome ∨
    ∀ d ∈ (r.localsAround (Memo.plainName q.name) q.site).tail,
      (d.1.node.start < p.site.node.start ↔ d.1.node.start < q.site.node.start)

instance (r : Resolver) (p q : Question) : Decidable (p.Repeats r q) :=
  inferInstanceAs (Decidable (_ ∨ _))

theorem fresh_eq_lookup (r : Resolver) (q : Question) :
    q.fresh r = r.lookup (Memo.plainName q.name) q.site := rfl

theorem firstIn_mem {qs : List Question} {q : Question} (h : q ∈ qs) :
    q.firstIn qs ∈ qs ∧ (q.firstIn qs).key = q.key := by
  obtain ⟨p, hp⟩ : ∃ p, qs.find? (·.key == q.key) = some p := by
    rw [← Option.isSome_iff_exists, List.find?_isSome]
    exact ⟨q, h, by simp⟩
  rw [firstIn, hp]
  exact ⟨List.mem_of_find?_eq_some hp, by simpa using List.find?_some hp⟩

theorem fresh_eq_of_repeats {r : Resolver} {root : Node} {p q : Question}
    (hp : p.site.IsIn root) (hq : q.site.IsIn root) (hkey : p.key = q.key)
    (h : p.Repeats r q) : p.fresh r = q.fresh r := by
  obtain ⟨hmember, hname⟩ := Prod.mk.inj hkey
  rw [fresh_eq_lookup, fresh_eq_lookup, hname]
  exact Resolver.lookup_congr (Site.membersAround_eq hp hq hmember) h

end Question

namespace Memo

/-- The answers of a memo to one question after the other. -/
def answers (r : Resolver) : Memo → List Question → List (Option Binding)
  | _, [] => []
  | m, q :: qs =>
    (m.resolve r q.name q.site).1 :: answers r (m.resolve r q.name q.site).2 qs

/-- The memo knows, of the questions asked, the answers to the first of each entry. -/
def Recalls (r : Resolver) (m : Memo) (asked : List Question) : Prop :=
  ∀ key, (m.entries.find? (·.1 == key)).map (·.2) =
    (asked.find? (·.key == key)).map (Question.fresh r)

theorem recalls_nil (r : Resolver) : Recalls r {} [] := fun _ => rfl

/-- A question is answered from the table and counted, or looked up and put into the table. -/
theorem resolve_cases (r : Resolver) (m : Memo) (q : Question) :
    (∃ entry, m.entries.find? (·.1 == q.key) = some entry ∧
      m.resolve r q.name q.site = (entry.2, { m with hits := m.hits + 1 })) ∨
    (m.entries.find? (·.1 == q.key) = none ∧
      m.resolve r q.name q.site =
        (q.fresh r, { m with entries := (q.key, q.fresh r) :: m.entries })) := by
  unfold Question.key
  cases hentry : m.entries.find?
      (·.1 == (q.site.enclosingMember?.map Site.address, plainName q.name)) with
  | some entry => exact .inl ⟨entry, rfl, by simp only [resolve, hentry]⟩
  | none =>
    refine .inr ⟨rfl, ?_⟩
    simp only [resolve, hentry]
    rfl

/-- One question: the answer is the one to the first question for the same entry, and then the memo
knows this question too. -/
theorem Recalls.resolve {r : Resolver} {m : Memo} {asked : List Question} (h : Recalls r m asked)
    (q : Question) :
    (m.resolve r q.name q.site).1 = (q.firstIn (asked ++ [q])).fresh r ∧
      Recalls r (m.resolve r q.name q.site).2 (asked ++ [q]) := by
  have hq := h q.key
  rcases resolve_cases r m q with ⟨entry, hentry, hresolve⟩ | ⟨hentry, hresolve⟩
  · rw [hentry] at hq
    obtain ⟨p, hp, hanswer⟩ := Option.map_eq_some_iff.1 hq.symm
    rw [hresolve]
    refine ⟨?_, fun key => ?_⟩
    · simp [Question.firstIn, List.find?_append, hp, hanswer]
    · -- The question comes after `p`, which is the first for this entry already.
      have hkey := h key
      rw [List.find?_append]
      by_cases heq : q.key = key
      · subst heq
        simpa [hp] using hkey
      · simpa [heq] using hkey
  · rw [hentry] at hq
    have hnew : asked.find? (·.key == q.key) = none := Option.map_eq_none_iff.1 hq.symm
    rw [hresolve]
    refine ⟨?_, fun key => ?_⟩
    · simp [Question.firstIn, List.find?_append, hnew]
    · have hkey := h key
      rw [List.find?_append]
      by_cases heq : q.key = key
      · subst heq
        simp [hnew]
      · simpa [heq] using hkey

theorem answers_of_recalls {r : Resolver} {m : Memo} {asked : List Question}
    (h : Recalls r m asked) (qs : List Question) :
    answers r m qs = qs.map fun q => (q.firstIn (asked ++ qs)).fresh r := by
  induction qs generalizing m asked with
  | nil => rfl
  | cons q qs ih =>
    obtain ⟨hanswer, hrecalls⟩ := h.resolve q
    -- A question that has been asked is not moved back by later ones.
    have hfirst : q.firstIn (asked ++ [q]) = q.firstIn (asked ++ q :: qs) := by
      simp [Question.firstIn, List.find?_append]
    rw [answers, hanswer, hfirst, ih hrecalls, List.map_cons, List.append_assoc]
    rfl

/-- A memo answers each question as the first one that asks for the same entry. -/
theorem answers_eq_map_first (r : Resolver) (qs : List Question) :
    answers r {} qs = qs.map fun q => (q.firstIn qs).fresh r :=
  answers_of_recalls (recalls_nil r) qs

/-- A memo answers every question as a resolver does that has not been asked before, unless two
questions ask for one entry from two sides of a declaration that gives the name another meaning. -/
theorem answers_eq_map_fresh (source : Bytes) (settings : Settings.Binding) {root : Node}
    {qs : List Question} (hsites : ∀ q ∈ qs, q.site.IsIn root)
    (hrepeats : ∀ p ∈ qs, ∀ q ∈ qs, p.key = q.key →
      p.Repeats (.ofTree source settings root) q) :
    answers (.ofTree source settings root) {} qs =
      qs.map (Question.fresh (.ofTree source settings root)) := by
  rw [answers_eq_map_first]
  refine List.map_congr_left fun q hq => ?_
  obtain ⟨hmem, hkey⟩ := Question.firstIn_mem hq
  exact Question.fresh_eq_of_repeats (hsites _ hmem) (hsites q hq) hkey (hrepeats _ hmem q hq hkey)

end Memo

/-- Two blocks of a method that each declare a variable of the same name. -/
def shadowed : Bytes :=
  .ofString "class A \x7b void F() \x7b \x7b B x; x.G(); \x7d \x7b C x; x.G(); \x7d \x7d \x7d"

/-- The tree of `shadowed`. -/
def shadowedTree : Node :=
  .mk { name := "compilation_unit", start := 0, stop := 56 } [
    .mk { name := "class_declaration", start := 0, stop := 56 } [
      .mk { name := "identifier", field := "name", start := 6, stop := 7 } [],
      .mk { name := "declaration_list", field := "body", start := 8, stop := 56 } [
        .mk { name := "method_declaration", start := 10, stop := 54 } [
          .mk { name := "predefined_type", field := "returns", start := 10, stop := 14 } [],
          .mk { name := "identifier", field := "name", start := 15, stop := 16 } [],
          .mk { name := "parameter_list", field := "parameters", start := 16, stop := 18 } [],
          .mk { name := "block", field := "body", start := 19, stop := 54 } [
            block 21, block 37]]]]]
where
  /-- The tree of the block that begins at `start`. -/
  block (start : Nat) : Node :=
    .mk { name := "block", start, stop := start + 15 } [
      .mk { name := "local_declaration_statement", start := start + 2, stop := start + 6 } [
        .mk { name := "variable_declaration", start := start + 2, stop := start + 5 } [
          .mk { name := "identifier", field := "type", start := start + 2, stop := start + 3 } [],
          .mk { name := "variable_declarator", start := start + 4, stop := start + 5 } [
            .mk { name := "identifier", field := "name", start := start + 4, stop := start + 5 }
              []]]],
      .mk { name := "expression_statement", start := start + 7, stop := start + 13 } [
        .mk { name := "invocation_expression", start := start + 7, stop := start + 12 } [
          .mk { name := "member_access_expression", field := "function", start := start + 7
                stop := start + 10 } [
            .mk { name := "identifier", field := "expression", start := start + 7
                  stop := start + 8 } [],
            .mk { name := "identifier", field := "name", start := start + 9, stop := start + 10 }
              []],
          .mk { name := "argument_list", field := "arguments", start := start + 10
                stop := start + 12 } []]]]

/-- What does the variable mean, wherever it stands in `shadowed`? -/
def shadowedQuestions : List Question :=
  ((Site.preorder shadowedTree).filter fun s =>
    s.node.name == "identifier" && s.node.text shadowed == "x").map ({ name := "x", site := · })

theorem isIn_of_mem_shadowedQuestions {q : Question} (h : q ∈ shadowedQuestions) :
    q.site.IsIn shadowedTree := by
  obtain ⟨s, hs, rfl⟩ := List.mem_map.1 h
  exact Site.isIn_of_mem_preorder (List.mem_filter.1 hs).1

/-- The first three questions come before the second variable is in force. -/
theorem Memo.answers_eq_map_fresh_firstBlock :
    answers (.ofTree shadowed {} shadowedTree) {} (shadowedQuestions.take 3) =
        (shadowedQuestions.take 3).map (Question.fresh (.ofTree shadowed {} shadowedTree)) ∧
      ((shadowedQuestions.take 3).map (Question.fresh (.ofTree shadowed {} shadowedTree))).map
        (Option.map Binding.typeName) = [some "B", some "B", some "B"] := by
  refine ⟨answers_eq_map_fresh shadowed {} (fun q hq => ?_) (by decide +kernel), by decide +kernel⟩
  exact isIn_of_mem_shadowedQuestions (List.mem_of_mem_take hq)

/-- The last question is about the second variable, but is answered as one about the first. -/
theorem Memo.answers_shadowed :
    (∀ q ∈ shadowedQuestions, q.site.IsIn shadowedTree) ∧
      (answers (.ofTree shadowed {} shadowedTree) {} shadowedQuestions).map
        (Option.map Binding.typeName) = [some "B", some "B", some "B", some "B"] ∧
      (shadowedQuestions.map (Question.fresh (.ofTree shadowed {} shadowedTree))).map
        (Option.map Binding.typeName) = [some "B", some "B", some "B", some "C"] :=
  ⟨fun _ => isIn_of_mem_shadowedQuestions, by decide +kernel, by decide +kernel⟩

end SymbolAtlas
