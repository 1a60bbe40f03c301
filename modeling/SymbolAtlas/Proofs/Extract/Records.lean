import Mathlib.Tactic
import SymbolAtlas.Proofs.Extract.Surroundings

/-!
# What a walk records at a site

Which symbols, calls and creations a walk records at a site depends on the node and on the
surroundings only:

* `Node.declares` are the names that a node declares, and `Surroundings.report` what is reported of
  them (`Walk.declarations_noted`);
* `Surroundings.uses` is the call or creation that a site stands for (`Walk.uses_noted`).
-/

namespace SymbolAtlas

/-- A symbol without its attributes. -/
structure Declaration where
  name : String
  qualifiedName : String
  kind : SymbolKind
  startLine : Nat
  endLine : Nat
  deriving DecidableEq, Repr

/-- The symbol without its attributes. -/
def Symbol.declaration (s : Symbol) : Declaration where
  name := s.name
  qualifiedName := s.qualifiedName
  kind := s.kind
  startLine := s.startLine
  endLine := s.endLine

/-- The names that a node declares, each with its kind. -/
def Node.declares (env : WalkEnv) (n : Node) : List (String × SymbolKind) :=
  let name? := n.fieldText? env.source "name"
  match n.kind with
  | .usingDirective =>
    match Walk.usingBody? (n.text env.source) with
    | some (body, _) => (Walk.importParts body).2.1.toList.map (·, .typeAlias)
    | none => []
  | .namespaceDeclaration | .fileScopedNamespace => name?.toList.map (·, .nameSpace)
  | .interfaceDeclaration => name?.toList.map (·, .interface)
  | .classDeclaration | .structDeclaration | .recordDeclaration | .enumDeclaration
  | .delegateDeclaration => name?.toList.map (·, .type)
  | .enumMember => name?.toList.map (·, .constant)
  | .methodDeclaration | .constructorDeclaration => (n.role env).member?.toList.map (·, .method)
  | .propertyDeclaration | .indexerDeclaration => (n.role env).member?.toList.map (·, .property)
  | .eventDeclaration => (n.role env).member?.toList.map (·, .event)
  | .fieldDeclaration =>
    let kind : SymbolKind :=
      if (n.modifiers env.source).contains "const" then .constant else .field
    (Walk.declarators env.source n).map (·.1, kind)
  | .eventFieldDeclaration => (Walk.declarators env.source n).map (·.1, .event)
  | _ => []

/-- What is reported of names that a node declares: nothing if it belongs to a prelude. -/
def Surroundings.report (env : WalkEnv) (s : Surroundings) (n : Node)
    (names : List (String × SymbolKind)) : List Declaration :=
  if Walk.isPrelude env n then []
  else
    names.map fun (name, kind) =>
      { name
        qualifiedName := s.qualify name
        kind
        startLine := n.startLine env.source
        endLine := n.endLine env.source }

/-- The dependency stands for a call or for the creation of an object. -/
def Dependency.isUse (d : Dependency) : Bool := d.kind == .calls || d.kind == .references

/-- Who makes a call or creates an object, what of the two, and on which line. -/
structure Use where
  caller : String
  kind : DependencyKind
  line : Nat
  deriving DecidableEq, Repr

/-- Who a dependency comes from, of which kind it is, and on which line. -/
def Dependency.use (d : Dependency) : Use where
  caller := d.fromSymbol
  kind := d.kind
  line := d.line

/-- The call or creation at a site with the given surroundings. -/
def Surroundings.uses (env : WalkEnv) (s : Surroundings) (site : Site) : List Use :=
  let line := site.node.startLine env.source
  match site.node.kind with
  | .invocation =>
    match s.caller?, (site.field? "function").bind (Call.ofFunction? env.source) with
    | some caller, some (_, name) => if name == "nameof" then [] else [⟨caller, .calls, line⟩]
    | _, _ => []
  | .objectCreation =>
    match s.caller?, Infer.spelledType? env.source (site.node.field? "type") with
    | some caller, some _ => [⟨caller, .references, line⟩]
    | _, _ => []
  | _ => []

namespace Walk

/-- The symbols recorded so far. -/
def declarations (w : Walk) : List Declaration := w.symbols.toList.map Symbol.declaration

/-- The calls and creations recorded so far. -/
def uses (w : Walk) : List Use := (w.dependencies.toList.filter (·.isUse)).map Dependency.use

@[simp] theorem declarations_placed (w : Walk) (s : Surroundings) :
    (w.placed s).declarations = w.declarations := rfl

@[simp] theorem uses_placed (w : Walk) (s : Surroundings) : (w.placed s).uses = w.uses := rfl

section

variable (env : WalkEnv) (w : Walk) (n : Node)

@[simp] theorem declarations_record (name : String) (kind : SymbolKind) (visibility : Visibility)
    (isExported : Bool) (signature : Option String) :
    (w.record env n name kind visibility isExported signature).declarations =
      w.declarations ++ w.surroundings.report env n [(name, kind)] := by
  unfold record Surroundings.report
  split
  · simp
  · simp only [declarations, Array.toList_push, List.map_append]
    rfl

@[simp] theorem declarations_declare (name : String) (kind : SymbolKind)
    (visibility : Walk → List String → Visibility) :
    (w.declare env n name kind visibility).declarations =
      w.declarations ++ w.surroundings.report env n [(name, kind)] :=
  declarations_record ..

theorem declarations_foldl_record {β : Type} {step : Walk → β → Walk}
    {name : β → String × SymbolKind} (hplace : ∀ w b, (step w b).surroundings = w.surroundings)
    (hstep : ∀ w b, (step w b).declarations =
      w.declarations ++ w.surroundings.report env n [name b])
    (bs : List β) (w : Walk) :
    (bs.foldl step w).declarations =
      w.declarations ++ w.surroundings.report env n (bs.map name) := by
  induction bs generalizing w with
  | nil => simp [Surroundings.report]
  | cons b bs ih =>
    rw [List.foldl_cons, ih, hplace, hstep, List.append_assoc]
    congr 1
    unfold Surroundings.report
    split <;> simp

@[simp] theorem declarations_addBases (qualifiedName : String) :
    (w.addBases env n qualifiedName).declarations = w.declarations := by
  unfold addBases
  split
  · rfl
  · split <;> rfl

@[simp] theorem declarations_addCall (site : Site) :
    (w.addCall env site).declarations = w.declarations := by
  unfold addCall
  split
  · split <;> rfl
  · rfl

@[simp] theorem declarations_addCreation :
    (w.addCreation env n).declarations = w.declarations := by
  unfold addCreation
  split <;> rfl

/-- An import declares its alias, if it has one. -/
theorem declarations_addImport (h : n.kind = .usingDirective) :
    (w.addImport env n).declarations =
      w.declarations ++ w.surroundings.report env n (n.declares env) := by
  unfold addImport Node.declares
  rw [h]
  dsimp only
  cases usingBody? (n.text env.source) with
  | none => simp [Surroundings.report]
  | some using_ =>
    obtain ⟨body, isGlobal⟩ := using_
    dsimp only
    cases (importParts body).2.1 with
    | none => split <;> simp [Surroundings.report, declarations]
    | some name =>
      have hrecord := declarations_record env w n name .typeAlias .owner false
      split
      · exact hrecord _
      · exact hrecord _

@[simp] theorem declarations_declareMember (name : String) (kind : SymbolKind) :
    (w.declareMember env n name kind).inside.declarations =
      w.declarations ++ w.surroundings.report env n [(name, kind)] := by
  have h := declarations_declare env w n name kind memberVisibility
  simp only [declareMember, enterMember, within]
  split <;> exact h

@[simp] theorem inside_stay : w.stay.inside = w := rfl

@[simp] theorem inside_passThrough : w.passThrough.inside = w := rfl

@[simp] theorem declarations_within (member : Option String) :
    (w.within member).inside.declarations = w.declarations := rfl

@[simp] theorem report_nil (s : Surroundings) : s.report env n [] = [] := by
  simp [Surroundings.report]

theorem declarations_enterNamespace (h : n.kind.isNamespace = true) :
    (w.enterNamespace env n).inside.declarations =
      w.declarations ++ w.surroundings.report env n (n.declares env) := by
  have hdeclares : n.declares env =
      (n.fieldText? env.source "name").toList.map (·, SymbolKind.nameSpace) := by
    unfold Node.declares
    cases hkind : n.kind <;> simp_all [Kind.isNamespace]
  unfold enterNamespace
  rw [hdeclares]
  cases n.fieldText? env.source "name" with
  | none => simp
  | some name => exact declarations_record ..

theorem declarations_enterType (h : n.kind.isType = true) :
    (w.enterType env n).inside.declarations =
      w.declarations ++ w.surroundings.report env n (n.declares env) := by
  have hdeclares : n.declares env = (n.fieldText? env.source "name").toList.map
      (·, if n.kind == .interfaceDeclaration then SymbolKind.interface else .type) := by
    unfold Node.declares
    cases hkind : n.kind <;> simp_all [Kind.isType]
  unfold enterType
  rw [hdeclares]
  cases n.fieldText? env.source "name" with
  | none => simp
  | some name =>
    exact (declarations_addBases env _ n (w.qualify name)).trans (declarations_declare ..)

theorem declarations_enterMethod
    (h : n.kind = .methodDeclaration ∨ n.kind = .constructorDeclaration) :
    (w.enterMethod env n).inside.declarations =
      w.declarations ++ w.surroundings.report env n (n.declares env) := by
  have hdeclares : n.declares env = (n.role env).member?.toList.map (·, SymbolKind.method) := by
    rcases h with h | h <;> simp [Node.declares, h]
  have hrole : n.role env = (n.fieldText? env.source "name").elim .plain fun name =>
      if name == Context.blockMethod && isPrelude env n then .unowned else .member name := by
    rcases h with h | h <;> simp [Node.role, h]
  unfold enterMethod
  rw [hdeclares, hrole]
  cases n.fieldText? env.source "name" with
  | none => simp [Role.member?]
  | some name =>
    dsimp only [Option.elim_some]
    split <;> simp [Role.member?]

theorem declarations_enterField (h : n.kind = .fieldDeclaration) :
    (w.enterField env n).inside.declarations =
      w.declarations ++ w.surroundings.report env n (n.declares env) := by
  have hdeclares : n.declares env = (declarators env.source n).map (·.1,
      if (n.modifiers env.source).contains "const" then SymbolKind.constant else .field) := by
    simp [Node.declares, h]
  rw [hdeclares, enterField, declarations_within]
  apply declarations_foldl_record env n
  · exact fun _ _ => surroundings_record ..
  · exact fun _ _ => declarations_record ..

theorem declarations_addEvents (h : n.kind = .eventFieldDeclaration) :
    (w.addEvents env n).declarations =
      w.declarations ++ w.surroundings.report env n (n.declares env) := by
  have hdeclares : n.declares env =
      (declarators env.source n).map (·.1, SymbolKind.event) := by
    simp [Node.declares, h]
  rw [hdeclares, addEvents]
  apply declarations_foldl_record env n
  · exact fun _ _ => surroundings_record ..
  · exact fun _ _ => declarations_record ..

end

/-- The symbols that a walk records at a site are those that the node declares, under names that
begin with the surroundings. -/
theorem declarations_noted (env : WalkEnv) (w : Walk) (site : Site) :
    (w.noted env site).declarations =
      w.declarations ++ w.surroundings.report env site.node (site.node.declares env) := by
  rw [noted, declarations_placed]
  cases hkind : site.node.kind
  all_goals simp only [arrive, hkind]
  case usingDirective =>
    rw [inside_stay]
    exact declarations_addImport env w site.node hkind
  case namespaceDeclaration | fileScopedNamespace =>
    exact declarations_enterNamespace env w site.node (by simp [hkind, Kind.isNamespace])
  case classDeclaration | structDeclaration | interfaceDeclaration | recordDeclaration
    | enumDeclaration =>
    exact declarations_enterType env w site.node (by simp [hkind, Kind.isType])
  case methodDeclaration => exact declarations_enterMethod env w site.node (.inl hkind)
  case constructorDeclaration => exact declarations_enterMethod env w site.node (.inr hkind)
  case fieldDeclaration => exact declarations_enterField env w site.node hkind
  case eventFieldDeclaration =>
    rw [inside_stay]
    exact declarations_addEvents env w site.node hkind
  case indexerDeclaration => simp [Node.declares, Node.role, hkind, Role.member?]
  case delegateDeclaration =>
    unfold withNameOnly
    cases hname : site.node.fieldText? env.source "name" <;> simp [Node.declares, hkind, hname]
  case enumMember =>
    unfold withNameOnly
    cases hname : site.node.fieldText? env.source "name" <;> simp [Node.declares, hkind, hname]
  case propertyDeclaration =>
    unfold withName
    cases hname : site.node.fieldText? env.source "name" <;>
      simp [Node.declares, Node.role, hkind, hname, Role.member?]
  case eventDeclaration =>
    unfold withNameOnly
    cases hname : site.node.fieldText? env.source "name" <;>
      simp [Node.declares, Node.role, hkind, hname, Role.member?]
  all_goals simp [Node.declares, hkind]

/-! ### Calls and creations -/

section

variable (env : WalkEnv) (w : Walk) (n : Node)

@[simp] theorem uses_record (name : String) (kind : SymbolKind) (visibility : Visibility)
    (isExported : Bool) (signature : Option String) :
    (w.record env n name kind visibility isExported signature).uses = w.uses := by
  unfold record
  split <;> rfl

@[simp] theorem uses_declare (name : String) (kind : SymbolKind)
    (visibility : Walk → List String → Visibility) :
    (w.declare env n name kind visibility).uses = w.uses :=
  uses_record ..

@[simp] theorem uses_within (member : Option String) :
    (w.within member).inside.uses = w.uses := rfl

@[simp] theorem uses_addImport : (w.addImport env n).uses = w.uses := by
  unfold addImport
  split
  · rfl
  · dsimp only
    split <;> split <;> first | rfl | exact uses_record ..

theorem uses_foldl_record {β : Type} {step : Walk → β → Walk}
    (h : ∀ w b, (step w b).uses = w.uses) (bs : List β) (w : Walk) :
    (bs.foldl step w).uses = w.uses := by
  induction bs generalizing w with
  | nil => rfl
  | cons b bs ih => rw [List.foldl_cons, ih, h]

@[simp] theorem uses_addEvents : (w.addEvents env n).uses = w.uses :=
  uses_foldl_record (fun _ _ => uses_record ..) _ _

@[simp] theorem uses_enterField : (w.enterField env n).inside.uses = w.uses :=
  uses_foldl_record (fun _ _ => uses_record ..) _ _

@[simp] theorem uses_declareMember (name : String) (kind : SymbolKind) :
    (w.declareMember env n name kind).inside.uses = w.uses := by
  have h := uses_declare env w n name kind memberVisibility
  simp only [declareMember, enterMember, within]
  split <;> exact h

@[simp] theorem uses_enterMethod : (w.enterMethod env n).inside.uses = w.uses := by
  unfold enterMethod
  split
  · rfl
  · split <;> simp

@[simp] theorem uses_enterNamespace : (w.enterNamespace env n).inside.uses = w.uses := by
  unfold enterNamespace
  split
  · rfl
  · exact uses_record ..

theorem kind_baseRole (kind : Kind) (looksLikeInterface : Bool) (position : Nat) :
    (baseRole kind looksLikeInterface position).1 = .inherits ∨
      (baseRole kind looksLikeInterface position).1 = .implements := by
  unfold baseRole
  split
  · exact .inl rfl
  · exact .inr rfl
  · split_ifs
    · exact .inr rfl
    · exact .inl rfl
    · exact .inr rfl

theorem uses_appendList {ds : List Dependency} (h : ∀ d ∈ ds, d.isUse = false) :
    ({ w with dependencies := w.dependencies ++ ds } : Walk).uses = w.uses := by
  have hnone : ds.filter (·.isUse) = [] := List.filter_eq_nil_iff.2 fun d hd => by simp [h d hd]
  simp [uses, hnone]

/-- A base type is neither called nor created. -/
@[simp] theorem uses_addBases (qualifiedName : String) :
    (w.addBases env n qualifiedName).uses = w.uses := by
  unfold addBases
  split
  · rfl
  · split
    · rfl
    · refine uses_appendList w fun d hd => ?_
      obtain ⟨⟨target, position⟩, -, rfl⟩ := List.mem_map.1 hd
      have hrole := kind_baseRole n.kind (TypeName.withoutInterfaceLetter
        env.options.binding.interfaceLetter (Dotted.lastSegment target) !=
          Dotted.lastSegment target) position
      rcases hrole with hrole | hrole <;> simp [Dependency.isUse, Dependency.make, hrole]

@[simp] theorem uses_enterType : (w.enterType env n).inside.uses = w.uses := by
  unfold enterType
  split
  · rfl
  · exact (uses_addBases ..).trans (uses_declare ..)

theorem use_namedCall (caller receiver name : String) (line : Nat) (binding : Option Binding) :
    (namedCall env caller receiver name line binding).use = ⟨caller, .calls, line⟩ := by
  unfold namedCall
  split
  · split <;> rfl
  · split <;> rfl

/-- Whatever a method is called on, the call is made by the caller. -/
theorem use_callDependency (caller : String) (line : Nat) (receiver : Receiver) (name : String) :
    (w.callDependency env caller line receiver name).1.use = ⟨caller, .calls, line⟩ := by
  cases receiver with
  | implicit =>
    simp only [callDependency]
    split <;> rfl
  | this => rfl
  | named object site => exact use_namedCall ..
  | expression text => rfl

theorem uses_push {d : Dependency} (h : d.isUse = true) (memo : Memo) :
    ({ w with memo, dependencies := w.dependencies.push d } : Walk).uses = w.uses ++ [d.use] := by
  simp [uses, List.filter_append, h]

theorem uses_addCall {site : Site} (h : site.node.kind = .invocation) :
    (w.addCall env site).uses = w.uses ++ w.surroundings.uses env site := by
  have hcaller : w.surroundings.caller? = w.caller? := rfl
  simp only [addCall, Surroundings.uses, h, hcaller]
  cases w.caller? with
  | none => simp
  | some caller =>
    cases (site.field? "function").bind (Call.ofFunction? env.source) with
    | none => simp
    | some called =>
      obtain ⟨receiver, name⟩ := called
      dsimp only
      split
      · simp
      · have huse := use_callDependency env w caller (site.node.startLine env.source) receiver name
        have hkind : (w.callDependency env caller (site.node.startLine env.source) receiver
            name).1.kind = .calls := congrArg Use.kind huse
        rw [uses_push w (by simp [Dependency.isUse, hkind])]
        exact congrArg (w.uses ++ [·]) huse

theorem uses_addCreation {site : Site} (h : site.node.kind = .objectCreation) :
    (w.addCreation env site.node).uses = w.uses ++ w.surroundings.uses env site := by
  have hcaller : w.surroundings.caller? = w.caller? := rfl
  simp only [addCreation, Surroundings.uses, h, hcaller]
  cases w.caller? with
  | none => simp
  | some caller =>
    cases Infer.spelledType? env.source (site.node.field? "type") with
    | none => simp
    | some target => exact uses_push w (by simp [Dependency.isUse, Dependency.make]) w.memo

end

/-- What a walk records at a site as called or created is made by who makes the calls there. -/
theorem uses_noted (env : WalkEnv) (w : Walk) (site : Site) :
    (w.noted env site).uses = w.uses ++ w.surroundings.uses env site := by
  rw [noted, uses_placed]
  cases hkind : site.node.kind
  case invocation =>
    simp only [arrive, hkind, inside_passThrough]
    exact uses_addCall env w hkind
  case objectCreation =>
    simp only [arrive, hkind, inside_passThrough]
    exact uses_addCreation env w hkind
  all_goals simp only [arrive, hkind, Surroundings.uses, List.append_nil]
  case delegateDeclaration | enumMember | eventDeclaration =>
    unfold withNameOnly
    split <;> simp
  case propertyDeclaration =>
    unfold withName
    split <;> simp
  all_goals simp

end Walk

end SymbolAtlas
