import Mathlib.Tactic
import SymbolAtlas.Extract.Basic

/-!
# What surrounds a place in a tree

The walk over a tree keeps the namespaces and types it has entered and the member it is in. Here the
same is read off the way down to a place, without a walk. Which part a node has in the surroundings
of those below it is its `Role`, and that depends on the node alone.

* `Surroundings.around` are the surroundings of a place: the file-scoped namespaces opened before
  it, the namespaces and the types around it, outermost first, and the member that calls are made by.
* `Walk.arrive_eq` says once what a node does to a walk: something is recorded, and then the role of
  the node is entered.
-/

namespace SymbolAtlas

/-! ### Roles -/

/-- What a node is for those below it. A declaration without a name is nothing to them. -/
inductive Role where
  | nameSpace (name : String)
  | type (name : String)
  | member (name : String)
  /-- Calls inside are made by the type around: a field, or the method that a prelude opens for
  blocks outside any member. -/
  | unowned
  /-- Nothing inside is looked at. -/
  | leaf
  | plain
  deriving DecidableEq, Repr

/-- The role of a node. -/
def Node.role (env : WalkEnv) (n : Node) : Role :=
  let name? := n.fieldText? env.source "name"
  match n.kind with
  | .namespaceDeclaration | .fileScopedNamespace => name?.elim .plain .nameSpace
  | .classDeclaration | .structDeclaration | .interfaceDeclaration | .recordDeclaration
  | .enumDeclaration => name?.elim .plain .type
  | .methodDeclaration | .constructorDeclaration =>
    name?.elim .plain fun name =>
      if name == Context.blockMethod && Walk.isPrelude env n then .unowned else .member name
  | .propertyDeclaration => name?.elim .plain .member
  | .indexerDeclaration => .member "this[]"
  | .eventDeclaration => name?.elim .leaf .member
  | .fieldDeclaration => .unowned
  | .usingDirective | .delegateDeclaration | .enumMember | .eventFieldDeclaration => .leaf
  | _ => .plain

namespace Role

/-- The namespace that a role is. -/
def nameSpace? : Role → Option String
  | .nameSpace name => some name
  | _ => none

/-- The type that a role is. -/
def type? : Role → Option String
  | .type name => some name
  | _ => none

/-- The member that a role is. -/
def member? : Role → Option String
  | .member name => some name
  | _ => none

end Role

/-! ### The way down -/

/-- The namespaces and types around a place, and the member it is in. -/
@[ext]
structure Surroundings where
  /-- Outermost first. -/
  namespaces : List String := []
  /-- Outermost first. -/
  types : List (String × Kind) := []
  member : Option String := none
  deriving DecidableEq, Repr

namespace Surroundings

/-- The names of all namespaces and types. -/
def names (s : Surroundings) : List String := s.namespaces ++ s.types.map (·.1)

/-- The qualified name of something declared here. -/
def qualify (s : Surroundings) (name : String) : String := Dotted.join (s.names ++ [name])

/-- Who makes the calls here: the member, or else the innermost of the namespaces and types. -/
def caller? (s : Surroundings) : Option String :=
  s.member.or (if s.names.isEmpty then none else some (Dotted.join s.names))

/-- The names of the file-scoped namespaces among nodes. -/
def fileScopedNames (source : Bytes) (ns : List Node) : List String :=
  (ns.filter fun n => n.label.named && n.kind == .fileScopedNamespace).filterMap
    (·.fieldText? source "name")

/-- The file-scoped namespaces opened before a place, among the children of the root. -/
def openedBefore (source : Bytes) (above : List (Nat × Node)) : List String :=
  match above.getLast? with
  | none => []
  | some (i, root) => fileScopedNames source (root.children.take i)

section

variable (env : WalkEnv)

/-- The namespaces that a place lies in, outermost first. -/
def namespacesAround (above : List (Nat × Node)) : List String :=
  above.reverse.filterMap fun (_, n) => (n.role env).nameSpace?

/-- The types that a place lies in, outermost first. -/
def typesAround (above : List (Nat × Node)) : List (String × Kind) :=
  above.reverse.filterMap fun (_, n) => (n.role env).type?.map (·, n.kind)

/-- All that the name of something declared at a place begins with. -/
def namesAround (above : List (Nat × Node)) : List String :=
  openedBefore env.source above ++ namespacesAround env above ++ (typesAround env above).map (·.1)

/-- The qualified name of the innermost member around a place, unless a type, a field or the block
method of a prelude lies in between. -/
def memberAround : List (Nat × Node) → Option String
  | [] => none
  | (_, n) :: above =>
    match n.role env with
    | .member name => some (Dotted.join (namesAround env above ++ [name]))
    | .type _ | .unowned => none
    | _ => memberAround above

/-- The surroundings of a place. -/
def around (above : List (Nat × Node)) : Surroundings where
  namespaces := openedBefore env.source above ++ namespacesAround env above
  types := typesAround env above
  member := memberAround env above

/-- The surroundings of the children of a node. -/
def enter (s : Surroundings) (n : Node) : Surroundings :=
  match n.role env with
  | .nameSpace name => { s with namespaces := s.namespaces ++ [name] }
  | .type name => { s with types := s.types ++ [(name, n.kind)], member := none }
  | .member name => { s with member := some (s.qualify name) }
  | .unowned => { s with member := none }
  | .leaf | .plain => s

end

/-- The surroundings behind file-scoped namespaces. -/
def extend (s : Surroundings) (names : List String) : Surroundings :=
  { s with namespaces := s.namespaces ++ names }

@[simp] theorem extend_nil (s : Surroundings) : s.extend [] = s := by
  simp [extend]

theorem extend_append (s : Surroundings) (a b : List String) :
    s.extend (a ++ b) = (s.extend a).extend b := by
  simp [extend]

@[simp] theorem names_around (env : WalkEnv) (above : List (Nat × Node)) :
    (around env above).names = namesAround env above := rfl

theorem openedBefore_cons {source : Bytes} {above : List (Nat × Node)} (h : above ≠ []) (i : Nat)
    (n : Node) : openedBefore source ((i, n) :: above) = openedBefore source above := by
  obtain ⟨a, rest, rfl⟩ := List.exists_cons_of_ne_nil h
  rw [openedBefore, openedBefore, List.getLast?_cons_cons]

/-- In front of the first child of a node nothing has been opened since the node. -/
theorem openedBefore_zero (source : Bytes) (above : List (Nat × Node)) (n : Node) :
    openedBefore source ((0, n) :: above) = openedBefore source above := by
  cases above with
  | nil => rfl
  | cons a rest => exact openedBefore_cons (List.cons_ne_nil _ _) 0 n

theorem namespacesAround_cons (env : WalkEnv) (i : Nat) (n : Node) (above : List (Nat × Node)) :
    namespacesAround env ((i, n) :: above) =
      namespacesAround env above ++ (n.role env).nameSpace?.toList := by
  rw [namespacesAround, List.reverse_cons, List.filterMap_append]
  cases h : (n.role env).nameSpace? <;> simp [h, namespacesAround]

theorem typesAround_cons (env : WalkEnv) (i : Nat) (n : Node) (above : List (Nat × Node)) :
    typesAround env ((i, n) :: above) =
      typesAround env above ++ ((n.role env).type?.map (·, n.kind)).toList := by
  rw [typesAround, List.reverse_cons, List.filterMap_append]
  cases h : (n.role env).type? <;> simp [h, typesAround]

/-- The first child of a node has the surroundings that the node gives its children. -/
theorem around_zero (env : WalkEnv) (above : List (Nat × Node)) (n : Node) :
    around env ((0, n) :: above) = (around env above).enter env n := by
  rw [around, namespacesAround_cons, typesAround_cons, openedBefore_zero, memberAround, enter]
  cases n.role env <;> simp [around, Role.nameSpace?, Role.type?, qualify, names, namesAround]

/-- Behind a child of the root a file-scoped namespace stays open; behind any other node nothing
does. -/
theorem around_succ {env : WalkEnv} {above : List (Nat × Node)} {n c : Node} {i : Nat}
    (hc : n.children[i]? = some c)
    (h : (above = [] ∧ n.role env = .plain) ∨ c.kind ≠ .fileScopedNamespace) :
    around env ((i + 1, n) :: above) =
      (around env ((i, n) :: above)).extend (fileScopedNames env.source [c]) := by
  have hsame : namespacesAround env ((i + 1, n) :: above) = namespacesAround env ((i, n) :: above) ∧
      typesAround env ((i + 1, n) :: above) = typesAround env ((i, n) :: above) := by
    simp [namespacesAround_cons, typesAround_cons]
  rcases h with ⟨rfl, hrole⟩ | hkind
  · have hnone : namespacesAround env [(i, n)] = [] := by
      simp [namespacesAround, hrole, Role.nameSpace?]
    have hopened : openedBefore env.source [(i + 1, n)] =
        openedBefore env.source [(i, n)] ++ fileScopedNames env.source [c] := by
      simp only [openedBefore, List.getLast?_singleton, fileScopedNames]
      rw [List.take_add_one, hc, Option.toList_some, List.filter_append, List.filterMap_append]
    simp [around, extend, hsame, hnone, hopened, memberAround]
  · have hnone : fileScopedNames env.source [c] = [] := by simp [fileScopedNames, hkind]
    have hopened : openedBefore env.source ((i + 1, n) :: above) =
        openedBefore env.source ((i, n) :: above) := by
      cases above with
      | nil =>
        simp only [openedBefore, List.getLast?_singleton]
        rw [List.take_add_one, hc, Option.toList_some, fileScopedNames, List.filter_append,
          List.filterMap_append]
        exact (congrArg _ hnone).trans (List.append_nil _)
      | cons a rest =>
        rw [openedBefore_cons (List.cons_ne_nil _ _), openedBefore_cons (List.cons_ne_nil _ _)]
    simp [around, hsame, hnone, hopened, memberAround]

end Surroundings

/-! ### What a node does to a walk -/

/-- The children that are visited, by position. -/
def Node.visits (env : WalkEnv) (n : Node) (i : Nat) (c : Node) : Bool :=
  match n.role env with
  | .nameSpace _ => c.label.named && n.fieldIndex? "name" != some i
  | .type _ =>
    match n.bodyIndex? with
    | some body => i == body
    | none => c.label.named
  | .leaf => false
  | .member _ | .unowned | .plain => c.label.named

namespace Walk

/-- What the walk knows of its surroundings. -/
def surroundings (w : Walk) : Surroundings where
  namespaces := w.namespaces
  types := w.types
  member := w.member

/-- The walk with the same records in other surroundings. -/
def placed (w : Walk) (s : Surroundings) : Walk :=
  { w with namespaces := s.namespaces, types := s.types, member := s.member }

@[simp] theorem surroundings_placed (w : Walk) (s : Surroundings) :
    (w.placed s).surroundings = s := rfl

theorem placed_eq_self {w : Walk} {s : Surroundings} (h : w.surroundings = s) : w.placed s = w := by
  subst h
  rfl

section

variable (env : WalkEnv) (w : Walk) (n : Node)

@[simp] theorem surroundings_record (name : String) (kind : SymbolKind) (visibility : Visibility)
    (isExported : Bool) (signature : Option String) :
    (w.record env n name kind visibility isExported signature).surroundings = w.surroundings := by
  unfold record
  split <;> rfl

@[simp] theorem surroundings_declare (name : String) (kind : SymbolKind)
    (visibility : Walk → List String → Visibility) :
    (w.declare env n name kind visibility).surroundings = w.surroundings :=
  surroundings_record ..

@[simp] theorem surroundings_addBases (qualifiedName : String) :
    (w.addBases env n qualifiedName).surroundings = w.surroundings := by
  unfold addBases
  split
  · rfl
  · split <;> rfl

@[simp] theorem surroundings_addImport : (w.addImport env n).surroundings = w.surroundings := by
  unfold addImport
  split
  · rfl
  · dsimp only
    split <;> split <;> first | rfl | exact surroundings_record ..

@[simp] theorem surroundings_addCreation :
    (w.addCreation env n).surroundings = w.surroundings := by
  unfold addCreation
  split <;> rfl

@[simp] theorem surroundings_addCall (site : Site) :
    (w.addCall env site).surroundings = w.surroundings := by
  unfold addCall
  split
  · split <;> rfl
  · rfl

theorem surroundings_foldl_record {β : Type} {step : Walk → β → Walk}
    (h : ∀ w b, (step w b).surroundings = w.surroundings) (bs : List β) (w : Walk) :
    (bs.foldl step w).surroundings = w.surroundings := by
  induction bs generalizing w with
  | nil => rfl
  | cons b bs ih => rw [List.foldl_cons, ih, h]

@[simp] theorem surroundings_addEvents : (w.addEvents env n).surroundings = w.surroundings :=
  surroundings_foldl_record (fun _ _ => surroundings_record ..) _ _

end

/-- Enters the role of a node. -/
def enter (env : WalkEnv) (w : Walk) (n : Node) : Arrival where
  inside := w.placed (w.surroundings.enter env n)
  picks := n.visits env
  leave after :=
    match n.role env with
    | .nameSpace _ =>
      if n.kind == .fileScopedNamespace then after
      else { after with namespaces := after.namespaces.dropLast }
    | .type _ => { after with member := w.member, types := after.types.dropLast }
    | .member _ | .unowned => { after with member := w.member }
    | .leaf | .plain => after

section

variable {env : WalkEnv} {w : Walk} {n : Node}

theorem enter_of_leaf (h : n.role env = .leaf) : w.enter env n = w.stay := by
  simp [enter, stay, Surroundings.enter, funext_iff, Node.visits, h, placed_eq_self rfl]

theorem enter_of_plain (h : n.role env = .plain) : w.enter env n = w.passThrough := by
  simp [enter, passThrough, Surroundings.enter, funext_iff, Node.visits, h, placed_eq_self rfl,
    everyNamed]

theorem enter_of_unowned (h : n.role env = .unowned) : w.enter env n = w.within none := by
  simp [enter, within, Surroundings.enter, funext_iff, Node.visits, h, everyNamed]
  rfl

theorem enter_of_member {name : String} (h : n.role env = .member name) :
    w.enter env n = w.within (some (w.qualify name)) := by
  simp [enter, within, Surroundings.enter, funext_iff, Node.visits, h, everyNamed]
  rfl

/-- The arrival is that of a walk which records something and then enters the role of the node. -/
def EntersRole (env : WalkEnv) (w : Walk) (n : Node) (a : Arrival) : Prop :=
  ∃ x : Walk, x.surroundings = w.surroundings ∧ a = x.enter env n

theorem entersRole_stay {x : Walk} (h : n.role env = .leaf) (hx : x.surroundings = w.surroundings) :
    EntersRole env w n x.stay :=
  ⟨x, hx, (enter_of_leaf h).symm⟩

theorem entersRole_passThrough {x : Walk} (h : n.role env = .plain)
    (hx : x.surroundings = w.surroundings) : EntersRole env w n x.passThrough :=
  ⟨x, hx, (enter_of_plain h).symm⟩

theorem entersRole_within {x : Walk} (h : n.role env = .unowned)
    (hx : x.surroundings = w.surroundings) : EntersRole env w n (x.within none) :=
  ⟨x, hx, (enter_of_unowned h).symm⟩

theorem entersRole_declareMember {name : String} (h : n.role env = .member name)
    (kind : SymbolKind) : EntersRole env w n (w.declareMember env n name kind) := by
  have hqualify {x : Walk} (hx : x.surroundings = w.surroundings) :
      x.within (some (w.qualify name)) = x.enter env n := by
    rw [enter_of_member h, show x.qualify name = w.qualify name from
      congrArg (Surroundings.qualify · name) hx]
  simp only [declareMember, enterMember]
  have hdeclare := surroundings_declare env w n name kind memberVisibility
  split
  · refine ⟨_, ?_, hqualify ?_⟩ <;> exact hdeclare
  · exact ⟨_, hdeclare, hqualify hdeclare⟩

theorem role_of_isNamespace (h : n.kind.isNamespace = true) :
    n.role env = (n.fieldText? env.source "name").elim .plain .nameSpace := by
  unfold Node.role
  cases hkind : n.kind <;> simp_all [Kind.isNamespace]

theorem role_of_isType (h : n.kind.isType = true) :
    n.role env = (n.fieldText? env.source "name").elim .plain .type := by
  unfold Node.role
  cases hkind : n.kind <;> simp_all [Kind.isType]

theorem entersRole_enterNamespace (h : n.kind.isNamespace = true) :
    EntersRole env w n (w.enterNamespace env n) := by
  have hrole : n.role env = _ := role_of_isNamespace h
  unfold enterNamespace
  cases hname : n.fieldText? env.source "name" with
  | none =>
    rw [hname] at hrole
    exact entersRole_passThrough hrole rfl
  | some name =>
    rw [hname, Option.elim_some] at hrole
    dsimp only
    generalize hrecorded : w.record env n name _ _ _ _ = x
    have hx : x.surroundings = w.surroundings := by simp [← hrecorded]
    have hnamespaces : x.namespaces = w.namespaces := congrArg Surroundings.namespaces hx
    refine ⟨x, hx, ?_⟩
    simp [enter, hrole, Surroundings.enter, funext_iff, Node.visits, surroundings, placed,
      hnamespaces]

theorem entersRole_enterType (h : n.kind.isType = true) :
    EntersRole env w n (w.enterType env n) := by
  have hrole : n.role env = _ := role_of_isType h
  unfold enterType
  cases hname : n.fieldText? env.source "name" with
  | none =>
    rw [hname] at hrole
    exact entersRole_passThrough hrole rfl
  | some name =>
    rw [hname, Option.elim_some] at hrole
    dsimp only
    generalize hrecorded :
      (w.declare env n name _ typeVisibility).addBases env n (w.qualify name) = x
    have hx : x.surroundings = w.surroundings := by simp [← hrecorded]
    have htypes : x.types = w.types := congrArg Surroundings.types hx
    have hmember : x.member = w.member := congrArg Surroundings.member hx
    have hpicks (i : Nat) (c : Node) : n.visits env i c =
        match n.bodyIndex? with
        | some body => i == body
        | none => c.label.named := by
      unfold Node.visits
      cases n.bodyIndex? <;> simp [hrole]
    refine ⟨x, hx, ?_⟩
    simp only [enter, hrole, Surroundings.enter, surroundings, placed, htypes, hmember,
      Arrival.mk.injEq, true_and, and_true]
    funext i c
    exact (hpicks i c).symm

theorem entersRole_enterMethod
    (h : n.kind = .methodDeclaration ∨ n.kind = .constructorDeclaration) :
    EntersRole env w n (w.enterMethod env n) := by
  have hrole : n.role env = (n.fieldText? env.source "name").elim .plain fun name =>
      if name == Context.blockMethod && isPrelude env n then .unowned else .member name := by
    rcases h with h | h <;> simp [Node.role, h]
  unfold enterMethod
  cases hname : n.fieldText? env.source "name" with
  | none =>
    rw [hname] at hrole
    exact entersRole_passThrough hrole rfl
  | some name =>
    rw [hname, Option.elim_some] at hrole
    dsimp only
    split
    · next hblock => exact entersRole_within (by rw [hrole, if_pos hblock]) rfl
    · next hblock => exact entersRole_declareMember (by rw [hrole, if_neg hblock]) .method

theorem entersRole_enterField (h : n.kind = .fieldDeclaration) :
    EntersRole env w n (w.enterField env n) :=
  entersRole_within (by simp [Node.role, h])
    (surroundings_foldl_record (fun _ _ => surroundings_record ..) _ _)

/-- At a site a walk records something and enters the role of the node. -/
theorem entersRole_arrive (site : Site) : EntersRole env w site.node (w.arrive env site) := by
  cases hkind : site.node.kind
  all_goals simp only [arrive, hkind]
  case usingDirective =>
    exact entersRole_stay (by simp [Node.role, hkind]) (surroundings_addImport ..)
  case namespaceDeclaration => exact entersRole_enterNamespace (by simp [hkind, Kind.isNamespace])
  case fileScopedNamespace => exact entersRole_enterNamespace (by simp [hkind, Kind.isNamespace])
  case methodDeclaration => exact entersRole_enterMethod (.inl hkind)
  case constructorDeclaration => exact entersRole_enterMethod (.inr hkind)
  case fieldDeclaration => exact entersRole_enterField hkind
  case eventFieldDeclaration =>
    exact entersRole_stay (by simp [Node.role, hkind]) (surroundings_addEvents ..)
  case indexerDeclaration => exact entersRole_declareMember (by simp [Node.role, hkind]) .property
  case invocation =>
    exact entersRole_passThrough (by simp [Node.role, hkind]) (surroundings_addCall ..)
  case objectCreation =>
    exact entersRole_passThrough (by simp [Node.role, hkind]) (surroundings_addCreation ..)
  case delegateDeclaration =>
    have hrole : site.node.role env = .leaf := by simp [Node.role, hkind]
    unfold withNameOnly
    split
    · exact entersRole_stay hrole (surroundings_declare ..)
    · exact entersRole_stay hrole rfl
  case enumMember =>
    have hrole : site.node.role env = .leaf := by simp [Node.role, hkind]
    unfold withNameOnly
    split
    · exact entersRole_stay hrole (surroundings_record ..)
    · exact entersRole_stay hrole rfl
  case propertyDeclaration =>
    unfold withName
    split
    · next hname => exact entersRole_declareMember (by simp [Node.role, hkind, hname]) .property
    · next hname => exact entersRole_passThrough (by simp [Node.role, hkind, hname]) rfl
  case eventDeclaration =>
    unfold withNameOnly
    split
    · next hname => exact entersRole_declareMember (by simp [Node.role, hkind, hname]) .event
    · next hname => exact entersRole_stay (by simp [Node.role, hkind, hname]) rfl
  case classDeclaration | structDeclaration | interfaceDeclaration | recordDeclaration
    | enumDeclaration => exact entersRole_enterType (by simp [hkind, Kind.isType])
  all_goals exact entersRole_passThrough (by simp [Node.role, hkind]) rfl

end

/-- The walk with what it records at a site. -/
def noted (env : WalkEnv) (w : Walk) (site : Site) : Walk :=
  (w.arrive env site).inside.placed w.surroundings

@[simp] theorem surroundings_noted (env : WalkEnv) (w : Walk) (site : Site) :
    (w.noted env site).surroundings = w.surroundings := rfl

theorem arrive_eq (env : WalkEnv) (w : Walk) (site : Site) :
    w.arrive env site = (w.noted env site).enter env site.node := by
  obtain ⟨x, hx, harrive⟩ : EntersRole env w site.node (w.arrive env site) := entersRole_arrive site
  have hnoted : w.noted env site = x := by
    rw [noted, harrive]
    exact placed_eq_self hx
  rw [hnoted, harrive]

end Walk

end SymbolAtlas
