import Mathlib.Tactic
import SymbolAtlas.Binding.Basic
import SymbolAtlas.Proofs.Text.Stripping
import SymbolAtlas.Proofs.Tree.Nodes

/-!
# The types of bindings

Every type that a name can be bound to is the base name of some text: it is spelled out in a
declaration, or it follows from the form of an expression (`Resolver.isBase_of_lookup`). The target
of a call is derived from it by stripping it once more. That changes nothing exactly if the first
stripping was complete.
-/

namespace SymbolAtlas.TypeName

/-- The name is the base name of some text. -/
def IsBase (t : String) : Prop := ∃ s, base s = t

theorem isBase_base (s : String) : IsBase (base s) := ⟨s, rfl⟩

/-- The names that types get without being spelled out. -/
def impliedNames : List String :=
  ["unknown", "string", "char", "bool", "Type"] ++ Infer.numericTypes

theorem isBase_of_mem_impliedNames {t : String} (h : t ∈ impliedNames) : IsBase t := by
  have hall : ∀ t ∈ impliedNames, base t = t := by decide +kernel
  exact ⟨t, hall t h⟩

theorem IsBase.not_mem {t : String} (h : IsBase t) : '<' ∉ t.toList := by
  obtain ⟨s, rfl⟩ := h
  rw [toList_base]
  exact not_mem_baseChars s.toList

theorem IsBase.base_eq_iff {t : String} (h : IsBase t) : base t = t ↔ Stripped t := by
  obtain ⟨s, rfl⟩ := h
  exact base_base_iff s

end SymbolAtlas.TypeName

namespace SymbolAtlas

open SymbolAtlas.TypeName

/-! ### Types of expressions -/

namespace Infer

variable {source : Bytes} {t : String}

theorem isBase_of_spelledType? {n : Option Node} (h : spelledType? source n = some t) :
    IsBase t := by
  obtain ⟨hmap, -⟩ := Option.filter_eq_some_iff.1 h
  obtain ⟨n, -, rfl⟩ := Option.map_eq_some_iff.1 hmap
  exact isBase_base _

theorem isBase_integerType (text : String) : IsBase (integerType text) := by
  unfold integerType
  refine isBase_of_mem_impliedNames ?_
  dsimp only
  split_ifs <;> decide

theorem isBase_realType (text : String) : IsBase (realType text) := by
  unfold realType
  refine isBase_of_mem_impliedNames ?_
  dsimp only
  split_ifs <;> decide

theorem isBase_of_genericCallType? {call : Node} (h : genericCallType? source call = some t) :
    IsBase t := by
  obtain ⟨function, -, h⟩ := Option.bind_eq_some_iff.1 h
  -- Whichever node has the arguments, the type is the first of them.
  have hargument {generic : Option Node}
      (h : (generic.bind fun n => (n.named? ["type_argument_list"]).bind fun arguments =>
        spelledType? source arguments.namedChildren.head?) = some t) : IsBase t := by
    obtain ⟨_, -, h⟩ := Option.bind_eq_some_iff.1 h
    obtain ⟨_, -, h⟩ := Option.bind_eq_some_iff.1 h
    exact isBase_of_spelledType? h
  split at h
  · exact hargument h
  · exact hargument h
  · exact hargument h

theorem isBase_of_arithmeticType? {left right : Option String}
    (h : arithmeticType? left right = some t) : IsBase t := by
  simp only [arithmeticType?, Option.bind_eq_bind, Option.bind_eq_some_iff] at h
  obtain ⟨-, -, l, -, -, -, r, -, h⟩ := h
  exact isBase_of_mem_impliedNames (List.mem_append_right _ (List.mem_of_getElem? h))

/-- The type of a binary expression is that of an operand, or one that the operator implies. -/
theorem isBase_of_binaryType? {op : String} {left right : Option String}
    (hleft : ∀ u, left = some u → IsBase u) (hright : ∀ u, right = some u → IsBase u)
    (h : binaryType? op left right = some t) : IsBase t := by
  unfold binaryType? at h
  split_ifs at h
  · exact isBase_of_mem_impliedNames (by obtain ⟨rfl⟩ := h; decide)
  · rcases Option.or_eq_some_iff.1 h with h | ⟨-, h⟩
    · exact hleft t h
    · exact hright t h
  · exact isBase_of_mem_impliedNames (by obtain ⟨rfl⟩ := h; decide)
  · exact isBase_of_arithmeticType? h

/-- The type of a conditional expression is that of a branch. -/
theorem isBase_of_conditionalType? {thenNull elseNull : Bool} {left right : Option String}
    (hleft : ∀ u, left = some u → IsBase u) (hright : ∀ u, right = some u → IsBase u)
    (h : conditionalType? thenNull elseNull left right = some t) : IsBase t := by
  unfold conditionalType? at h
  split at h
  · split_ifs at h
    exact hleft t h
  · split_ifs at h
    exact hleft t h
  · split_ifs at h
    exact hright t h
  · cases h

theorem isBase_of_typeFrom {e : Node} {types : List (Option String)}
    (htypes : ∀ u, some u ∈ types → IsBase u) (h : typeFrom source e types = some t) :
    IsBase t := by
  have htypeAt (i : Option Nat) (u : String) (hu : (i.bind fun i => (types[i]?).join) = some u) :
      IsBase u := by
    obtain ⟨i, -, hi⟩ := Option.bind_eq_some_iff.1 hu
    exact htypes u (List.mem_of_getElem? (Option.join_eq_some_iff.1 hi))
  have himplied (u : String) (hu : u ∈ impliedNames) (h : some u = some t) : IsBase t := by
    rw [← Option.some.inj h]
    exact isBase_of_mem_impliedNames hu
  unfold typeFrom at h
  dsimp only at h
  split at h
  · exact isBase_of_spelledType? h
  · exact isBase_of_spelledType? h
  · exact isBase_of_spelledType? h
  · exact isBase_of_spelledType? h
  · rw [← Option.some.inj h]
    exact isBase_integerType _
  · rw [← Option.some.inj h]
    exact isBase_realType _
  · exact himplied _ (by decide) h
  · exact himplied _ (by decide) h
  · exact himplied _ (by decide) h
  · exact himplied _ (by decide) h
  · exact himplied _ (by decide) h
  · exact himplied _ (by decide) h
  · exact himplied _ (by decide) h
  · exact isBase_of_spelledType? h
  · exact htypeAt _ t h
  · exact isBase_of_genericCallType? h
  · simp only [Option.bind_eq_bind, Option.bind_eq_some_iff] at h
    obtain ⟨-, -, -, -, op, -, h⟩ := h
    exact isBase_of_binaryType? (htypeAt _) (htypeAt _) h
  · exact isBase_of_conditionalType? (htypeAt _) (htypeAt _) h
  · cases h

theorem typesOf_eq_map (source : Bytes) (ns : List Node) :
    typesOf source ns = ns.map (typeOf? source) := by
  induction ns with
  | nil => rfl
  | cons n ns ih => rw [typesOf, ih, List.map_cons]

/-- The type of an expression is a base name, whatever its form. -/
theorem isBase_of_typeOf? {e : Node} (h : typeOf? source e = some t) : IsBase t := by
  induction e using Node.childInduction generalizing t with
  | node e ih =>
    obtain ⟨label, children⟩ := e
    rw [typeOf?, typesOf_eq_map] at h
    refine isBase_of_typeFrom (fun u hu => ?_) h
    obtain ⟨c, hc, hcu⟩ := List.mem_map.1 hu
    exact ih c hc hcu

/-- The type of an initial value, or else the unknown type. -/
theorem isBase_getD_typeOf? (value : Option Node) :
    IsBase ((value.bind (typeOf? source)).getD Binding.unknownType) := by
  cases h : value.bind (typeOf? source) with
  | none => exact isBase_of_mem_impliedNames (by decide)
  | some t =>
    obtain ⟨e, -, he⟩ := Option.bind_eq_some_iff.1 h
    exact isBase_of_typeOf? he

end Infer

/-! ### Types of declarations -/

namespace Resolver

variable {source : Bytes} {settings : Settings.Binding} {b : Binding}

theorem isBase_of_mem_fieldBindings {s : Site} (h : b ∈ fieldBindings source settings s) :
    IsBase b.typeName := by
  obtain ⟨declaration, -, h⟩ := List.mem_flatMap.1 h
  obtain ⟨declarator, -, h⟩ := List.mem_filterMap.1 h
  obtain ⟨name, -, rfl⟩ := Option.map_eq_some_iff.1 h
  dsimp only
  split_ifs
  · exact Infer.isBase_getD_typeOf? _
  · exact isBase_base _

theorem isBase_of_propertyBinding? {s : Site} (h : propertyBinding? source settings s = some b) :
    IsBase b.typeName := by
  obtain ⟨name, -, h⟩ := Option.bind_eq_some_iff.1 h
  obtain ⟨type, -, h⟩ := Option.bind_eq_some_iff.1 h
  dsimp only at h
  split_ifs at h
  rw [← Option.some.inj h]
  exact isBase_base _

theorem isBase_localBinding (r : Resolver) (name : String) (declaration : Site)
    (declared : Option String) : IsBase (r.localBinding name declaration declared).typeName := by
  unfold localBinding
  cases declared.filter fun t => t != "var" && t != "" with
  | some t => exact isBase_base t
  | none =>
    have hvalue : IsBase (((Declarator.value? declaration.node).bind
        (Infer.typeOf? r.source)).getD Binding.unknownType) := Infer.isBase_getD_typeOf? _
    cases hinferred : (Declarator.value? declaration.node).bind (Infer.typeOf? r.source) <;>
      rwa [hinferred] at hvalue

theorem isBase_of_localAt? {r : Resolver} {name : String} {site : Site}
    (h : r.localAt? name site = some b) : IsBase b.typeName := by
  obtain ⟨member, -, h⟩ := List.exists_of_findSome?_eq_some h
  obtain ⟨found, -, rfl⟩ := Option.map_eq_some_iff.1 h
  exact isBase_localBinding r name found.1 found.2

theorem isBase_of_parameterAt? {r : Resolver} {name : String} {site : Site}
    (h : r.parameterAt? name site = some b) : IsBase b.typeName := by
  obtain ⟨member, -, h⟩ := List.exists_of_findSome?_eq_some (Option.join_eq_some_iff.1 h)
  obtain ⟨parameters, -, h⟩ := Option.bind_eq_some_iff.1 h
  obtain ⟨parameter, -, h⟩ := Option.bind_eq_some_iff.1 h
  obtain ⟨t, ht, rfl⟩ := Option.map_eq_some_iff.1 (Option.some.inj h)
  exact Infer.isBase_of_spelledType? ht

/-- Whatever a name is bound to in a file, its type is a base name. -/
theorem isBase_of_lookup {root : Node} {name : String} {site : Site}
    (h : (ofTree source settings root).lookup name site = some b) : IsBase b.typeName := by
  rcases Option.or_eq_some_iff.1 h with h | ⟨-, h⟩
  · obtain ⟨s, -, hb⟩ := List.mem_flatMap.1 (List.mem_of_find?_eq_some h)
    exact isBase_of_mem_fieldBindings hb
  rcases Option.or_eq_some_iff.1 h with h | ⟨-, h⟩
  · exact isBase_of_localAt? h
  rcases Option.or_eq_some_iff.1 h with h | ⟨-, h⟩
  · exact isBase_of_parameterAt? h
  · obtain ⟨s, -, hb⟩ := List.mem_filterMap.1 (List.mem_of_find?_eq_some h)
    exact isBase_of_propertyBinding? hb

/-- The target of calls on a completely stripped type is that type, up to the letter of an
interface. -/
theorem normalize_of_base_eq {r : Resolver} {t : String} (h : base t = t) :
    r.normalize t = if r.settings.stripInterface then
      withoutInterfaceLetter r.settings.interfaceLetter t else t := by
  rw [normalize, h]

end Resolver

/-- **Type names are stripped in one order.** The base name of a text never holds type arguments. It
ends in no nullability mark and no array brackets exactly if the text spells a bare name with
spacing, brackets and marks behind it in this order, and exactly then a second stripping changes
nothing. So it is with the bindings of every file: the type that a name is bound to has no type
arguments, and a second stripping keeps it exactly if no mark is left at its end. Calls then go to
that very type, up to the letter of an interface. -/
theorem TypeName.base_strips_inOrder (s : String) :
    '<' ∉ (base s).toList ∧ (Stripped (base s) ↔ InOrder s) ∧
      (base (base s) = base s ↔ InOrder s) ∧
      ∀ (source : Bytes) (settings : Settings.Binding) (root : Node) (name : String) (site : Site),
        ∀ b ∈ (Resolver.ofTree source settings root).lookup name site,
          '<' ∉ b.typeName.toList ∧ (base b.typeName = b.typeName ↔ Stripped b.typeName) ∧
            (Stripped b.typeName →
              (Resolver.ofTree source settings root).normalize b.typeName =
                if settings.stripInterface then
                  withoutInterfaceLetter settings.interfaceLetter b.typeName
                else b.typeName) := by
  refine ⟨(isBase_base s).not_mem, stripped_base_iff s,
    (base_base_iff s).trans (stripped_base_iff s), ?_⟩
  intro source settings root name site b hb
  have hbase := Resolver.isBase_of_lookup hb
  exact ⟨hbase.not_mem, hbase.base_eq_iff,
    fun hstripped => Resolver.normalize_of_base_eq (hbase.base_eq_iff.2 hstripped)⟩

/-- A class with one field, of a type with seven characters. -/
def classWithField (type : String) : Bytes := .ofString ("class A \x7b " ++ type ++ " x; \x7d")

/-- The tree of such a class. -/
def classWithFieldTree (type : Node) : Node :=
  .mk { name := "compilation_unit", start := 0, stop := 22 } [
    .mk { name := "class_declaration", start := 0, stop := 22 } [
      .mk { name := "identifier", field := "name", start := 6, stop := 7 } [],
      .mk { name := "declaration_list", field := "body", start := 8, stop := 22 } [
        .mk { name := "field_declaration", start := 10, stop := 20 } [
          .mk { name := "variable_declaration", start := 10, stop := 19 } [
            type,
            .mk { name := "variable_declarator", start := 18, stop := 19 } [
              .mk { name := "identifier", field := "name", start := 18, stop := 19 } []]]]]]]

/-- An array that may be missing. -/
def nullableArray : Node :=
  .mk { name := "nullable_type", field := "type", start := 10, stop := 17 } [
    .mk { name := "array_type", field := "type", start := 10, stop := 16 } [
      .mk { name := "identifier", field := "type", start := 10, stop := 14 } [],
      .mk { name := "array_rank_specifier", field := "rank", start := 14, stop := 16 } []]]

/-- An array whose elements may be missing. -/
def nullableElements : Node :=
  .mk { name := "array_type", field := "type", start := 10, stop := 17 } [
    .mk { name := "nullable_type", field := "type", start := 10, stop := 15 } [
      .mk { name := "identifier", field := "type", start := 10, stop := 14 } []],
    .mk { name := "array_rank_specifier", field := "rank", start := 15, stop := 17 } []]

/-- What the field is bound to, seen from the root of the tree. -/
def fieldBinding? (type : String) (tree : Node) : Option Binding :=
  (Resolver.ofTree (classWithField type) {} (classWithFieldTree tree)).lookup "x"
    { node := classWithFieldTree tree }

/-- Both marks of a nullable array are taken off, and calls go to what the interface stands for. -/
theorem TypeName.base_strips_inOrder_nullableArray :
    base "IFoo[]?" = "IFoo" ∧ InOrder "IFoo[]?" ∧ base (base "IFoo[]?") = base "IFoo[]?" ∧
      ∃ b ∈ fieldBinding? "IFoo[]?" nullableArray, b.typeName = "IFoo" ∧
        (Resolver.ofTree (classWithField "IFoo[]?") {} (classWithFieldTree nullableArray)).normalize
          b.typeName = "Foo" := by
  obtain ⟨-, hstripped, hagain, hbound⟩ := base_strips_inOrder "IFoo[]?"
  have horder : InOrder "IFoo[]?" := hstripped.1 (by decide +kernel)
  have hlookup : (fieldBinding? "IFoo[]?" nullableArray).map Binding.typeName = some "IFoo" := by
    decide +kernel
  obtain ⟨b, hb, htype⟩ := Option.map_eq_some_iff.1 hlookup
  refine ⟨by decide +kernel, horder, hagain.2 horder, b, hb, htype, ?_⟩
  obtain ⟨-, -, hcall⟩ := hbound _ _ _ _ _ b hb
  rw [hcall (by rw [htype]; decide +kernel), htype]
  decide +kernel

/-- An array of nullable elements keeps their mark, so that its name is stripped further when it is
stripped again: calls on the field go to another type than the one it is bound to. -/
theorem TypeName.base_nullableElements :
    base "IFoo?[]" = "IFoo?" ∧ ¬ Stripped (base "IFoo?[]") ∧
      base (base "IFoo?[]") ≠ base "IFoo?[]" ∧
      (fieldBinding? "IFoo?[]" nullableElements).map Binding.typeName = some "IFoo?" ∧
      base "IFoo?" = "IFoo" := by
  decide +kernel

end SymbolAtlas
