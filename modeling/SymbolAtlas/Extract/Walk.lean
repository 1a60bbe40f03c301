import SymbolAtlas.Binding.Basic
import SymbolAtlas.Extract.Call
import SymbolAtlas.Extract.Textual
import SymbolAtlas.Record.Basic
import SymbolAtlas.Scope.Basic

/-!
# Walking a tree for declarations and calls

The walk goes down the tree and records every declaration under its qualified name and every call
under the member it stands in. On the way it keeps the names of the namespaces and types entered
and the member it is in.

A chunk arrives behind a prelude that opens the scopes around it again; what is declared in the
prelude is entered but not reported.

`arrive` says what a single node does, without recursion: what it adds to the walk, which of its
children are visited, and what is undone after them. `visit` is the recursion.
-/

namespace SymbolAtlas

/-- What the walk is told. -/
structure ExtractOptions where
  /-- Bytes at the front that only open scopes again. -/
  preludeSize : Nat := 0
  /-- The text is a chunk of a file. -/
  chunkMode : Bool := false
  binding : Settings.Binding := {}
  textPass : Bool := true

/-- What stays the same during a walk. -/
structure WalkEnv where
  source : Bytes
  options : ExtractOptions
  resolver : Resolver
  /-- The names of all methods and local functions of the tree. -/
  methods : List String

/-- The state of a walk. -/
structure Walk where
  /-- The namespaces entered, outermost first. -/
  namespaces : List String := []
  /-- The types entered, outermost first. -/
  types : List (String × Kind) := []
  /-- The member the walk is in. -/
  member : Option String := none
  memo : Memo := {}
  members : Array MemberSpan := #[]
  symbols : Array Symbol := #[]
  dependencies : Array Dependency := #[]
  imports : Array Import := #[]

namespace Walk

/-! ### Names -/

/-- The names of the namespaces and types entered. -/
def containers (w : Walk) : List String := w.namespaces ++ w.types.map (·.1)

/-- The qualified name of something declared here. -/
def qualify (w : Walk) (name : String) : String := Dotted.join (w.containers ++ [name])

/-- The dotted name of the innermost container. -/
def container? (w : Walk) : Option String :=
  if w.containers.isEmpty then none else some (Dotted.join w.containers)

/-- The walk is inside a type. -/
def inType (w : Walk) : Bool := !w.types.isEmpty

/-- The innermost type is an interface. -/
def inInterface (w : Walk) : Bool := w.types.getLast?.any (·.2 == .interfaceDeclaration)

/-- The dotted name of the innermost type. -/
def typePath? (w : Walk) : Option String := if w.inType then w.container? else none

/-- The symbol that a call found here is made by. -/
def caller? (w : Walk) : Option String := w.member.or w.container?

/-! ### Recording -/

/-- The node belongs to the prelude of a chunk. -/
def isPrelude (env : WalkEnv) (n : Node) : Bool := n.start < env.options.preludeSize

/-- Records a symbol, unless it belongs to the prelude. -/
def record (env : WalkEnv) (w : Walk) (n : Node) (name : String) (kind : SymbolKind)
    (visibility : Visibility) (isExported : Bool) (signature : Option String) : Walk :=
  if isPrelude env n then w
  else
    { w with
      symbols := w.symbols.push {
        name
        qualifiedName := w.qualify name
        kind
        startLine := n.startLine env.source
        endLine := n.endLine env.source
        isExported
        visibility
        signature } }

/-- The modifiers make a symbol public by name. -/
def isExported (modifiers : List String) : Bool := modifiers.contains "public"

/-- The visibility of a type declared here. -/
def typeVisibility (w : Walk) (modifiers : List String) : Visibility :=
  .ofModifiers modifiers (if w.inType then .owner else .everyone)

/-- The visibility of a member declared here. -/
def memberVisibility (w : Walk) (modifiers : List String) : Visibility :=
  .ofModifiers modifiers (if w.inInterface then .everyone else .owner)

/-- Records a declaration with modifiers and a header. -/
def declare (env : WalkEnv) (w : Walk) (n : Node) (name : String) (kind : SymbolKind)
    (visibility : Walk → List String → Visibility) : Walk :=
  let modifiers := n.modifiers env.source
  w.record env n name kind (visibility w modifiers) (isExported modifiers) (n.signature? env.source)

/-! ### Imports -/

/-- The text of a directive between `using` and its end, and whether it is global. -/
def usingBody? (text : String) : Option (List Char × Bool) :=
  let rest := Chars.trim (Chars.dropEndWhile (· == ';') (Chars.trim text.toList))
  let isGlobal := "global ".toList.isPrefixOf rest
  let rest := if isGlobal then Chars.trimStart (rest.drop 7) else rest
  if "using".toList.isPrefixOf rest then some (Chars.trim (rest.drop 5), isGlobal) else none

/-- What a `using` directive imports, under which name and how. -/
def importParts (body : List Char) : String × Option String × ImportKind :=
  if "static ".toList.isPrefixOf body then
    (String.ofList (Chars.trim (body.drop 7)), none, .staticMembers)
  else
    match Chars.splitAt? ['='] body with
    | some (name, target) =>
      (String.ofList (Chars.trim target), some (String.ofList (Chars.trim name)), .renaming)
    | none => (String.ofList body, none, .nameSpace)

/-- Records a `using` directive. -/
def addImport (env : WalkEnv) (w : Walk) (n : Node) : Walk :=
  match usingBody? (n.text env.source) with
  | none => w
  | some (body, isGlobal) =>
    let (target, aliasName, kind) := importParts body
    let w :=
      match aliasName with
      | some name =>
        w.record env n name .typeAlias .owner false (some ("using " ++ name ++ " = " ++ target))
      | none => w
    if target == "" then w
    else
      { w with
        imports := w.imports.push
          { source := target, aliasName, kind, isGlobal, line := n.startLine env.source } }

/-! ### Base types -/

/-- Confidence in a base type whose role is certain. -/
def declaredBase : Single := .ofHundredths 100

/-- Confidence in a base type whose role is guessed from its place or name. -/
def guessedBase : Single := .ofHundredths 90

/-- The role of a base type, the `position`-th of a declaration of the given kind. -/
def baseRole (kind : Kind) (looksLikeInterface : Bool) (position : Nat) : DependencyKind × Single :=
  match kind with
  | .interfaceDeclaration => (.inherits, declaredBase)
  | .structDeclaration => (.implements, if looksLikeInterface then declaredBase else guessedBase)
  | _ =>
    if looksLikeInterface then (.implements, declaredBase)
    else if position = 0 then (.inherits, guessedBase)
    else (.implements, guessedBase)

/-- The name of the type that an entry of a base list stands for. -/
def baseName? (source : Bytes) (entry : Node) : Option String :=
  match entry.name with
  | "argument_list" => none
  | "primary_constructor_base_type" =>
    let type := ((entry.field? "type").or entry.namedChildren.head?).getD entry
    Infer.spelledType? source (some type)
  | _ => Infer.spelledType? source (some entry)

/-- Records the base types of a type declaration. -/
def addBases (env : WalkEnv) (w : Walk) (n : Node) (qualifiedName : String) : Walk :=
  match n.namedChildren.find? (·.kind == .baseList) with
  | none => w
  | some bases =>
    if n.kind == .enumDeclaration then w
    else
      let line := bases.startLine env.source
      let names := bases.namedChildren.filterMap (baseName? env.source)
      let found := names.zipIdx.map fun (target, position) =>
        let simple := Dotted.lastSegment target
        let letter := env.options.binding.interfaceLetter
        let looksLikeInterface := TypeName.withoutInterfaceLetter letter simple != simple
        let (kind, confidence) := baseRole n.kind looksLikeInterface position
        { Dependency.make qualifiedName target kind line confidence with
          qualifiedContext := some qualifiedName }
      { w with dependencies := w.dependencies ++ found }

/-! ### Calls -/

/-- The number of characters kept of the arguments of a call. -/
def argumentLimit : Nat := 80

/-- The arguments of a call, shortened. -/
def argumentText? (source : Bytes) (n : Node) : Option String :=
  (n.field? "arguments").map fun a => Str.clip (a.text source) argumentLimit

/-- A name inside the innermost type. -/
def ownName (typePath : Option String) (name : String) : String :=
  match typePath with
  | some path => path ++ "." ++ name
  | none => name

/-- The dependency for a call on a plain name, which has been looked up. -/
def namedCall (env : WalkEnv) (caller receiver name : String) (line : Nat) :
    Option Binding → Dependency
  | some binding =>
    if binding.isKnown then
      { Dependency.make caller (env.resolver.normalize binding.typeName ++ "." ++ name) .calls line
          binding.confidence with receiverType := some binding.typeName }
    else .make caller name .calls line binding.confidence
  | none =>
    if receiver.toList.head?.any CharClass.isUpper then
      { Dependency.make caller (receiver ++ "." ++ name) .calls line (.ofHundredths 75) with
        receiverType := some receiver }
    else .make caller name .calls line env.options.binding.unresolved

/-- The dependency for a call of `name`, and the memo after looking up what it is called on. -/
def callDependency (env : WalkEnv) (w : Walk) (caller : String) (line : Nat) (receiver : Receiver)
    (name : String) : Dependency × Memo :=
  match receiver with
  | .implicit =>
    if env.methods.contains name then
      (.make caller (ownName w.typePath? name) .calls line (.ofHundredths 90), w.memo)
    else (.make caller name .calls line (.ofHundredths 70), w.memo)
  | .this =>
    ({ Dependency.make caller (ownName w.typePath? name) .calls line (.ofHundredths 95) with
        callingObject := some "this"
        receiverType := w.typePath?.map Dotted.lastSegment }, w.memo)
  | .named object site =>
    let (binding, memo) := w.memo.resolve env.resolver object site
    ({ namedCall env caller object name line binding with callingObject := some object }, memo)
  | .expression text =>
    ({ Dependency.make caller name .calls line env.options.binding.unresolved with
        callingObject := some text }, w.memo)

/-- Records an invocation. -/
def addCall (env : WalkEnv) (w : Walk) (site : Site) : Walk :=
  match w.caller?, (site.field? "function").bind (Call.ofFunction? env.source) with
  | some caller, some (receiver, name) =>
    if name == "nameof" then w
    else
      let line := site.node.startLine env.source
      let (dependency, memo) := w.callDependency env caller line receiver name
      { w with
        memo
        dependencies := w.dependencies.push { dependency with
          parameterContext := argumentText? env.source site.node
          qualifiedContext := w.typePath? } }
  | _, _ => w

/-- Records the creation of an object. -/
def addCreation (env : WalkEnv) (w : Walk) (n : Node) : Walk :=
  match w.caller?, Infer.spelledType? env.source (n.field? "type") with
  | some caller, some target =>
    let line := n.startLine env.source
    { w with
      dependencies := w.dependencies.push {
        Dependency.make caller target .references line (.ofHundredths 90) with
        parameterContext := argumentText? env.source n
        qualifiedContext := w.typePath? } }
  | _, _ => w

/-! ### The walk -/

/-- What a node does to the walk. -/
structure Arrival where
  /-- The walk as the children find it. -/
  inside : Walk
  /-- The children to visit, by position. -/
  picks : Nat → Node → Bool
  /-- What is undone after the children. -/
  leave : Walk → Walk

/-- Every named child is visited. -/
def everyNamed (_ : Nat) (n : Node) : Bool := n.label.named

/-- Visits all named children and undoes nothing. -/
def passThrough (w : Walk) : Arrival := { inside := w, picks := everyNamed, leave := id }

/-- Visits no child. -/
def stay (w : Walk) : Arrival := { inside := w, picks := fun _ _ => false, leave := id }

/-- Visits all named children as parts of `member`. -/
def within (w : Walk) (member : Option String) : Arrival where
  inside := { w with member }
  picks := everyNamed
  leave after := { after with member := w.member }

/-- Enters a namespace. One that is file-scoped is not left again. -/
def enterNamespace (env : WalkEnv) (w : Walk) (n : Node) : Arrival :=
  match n.fieldText? env.source "name" with
  | none => w.passThrough
  | some name =>
    let recorded := w.record env n name .nameSpace .everyone false (some ("namespace " ++ name))
    { inside := { recorded with namespaces := w.namespaces ++ [name] }
      picks := fun i c => c.label.named && n.fieldIndex? "name" != some i
      leave := fun after =>
        if n.kind == .fileScopedNamespace then after
        else { after with namespaces := after.namespaces.dropLast } }

/-- Enters a type. -/
def enterType (env : WalkEnv) (w : Walk) (n : Node) : Arrival :=
  match n.fieldText? env.source "name" with
  | none => w.passThrough
  | some name =>
    let kind : SymbolKind := if n.kind == .interfaceDeclaration then .interface else .type
    let recorded := (w.declare env n name kind typeVisibility).addBases env n (w.qualify name)
    { inside := { recorded with types := w.types ++ [(name, n.kind)], member := none }
      picks := fun i c =>
        match n.bodyIndex? with
        | some body => i == body
        | none => c.label.named
      leave := fun after => { after with member := w.member, types := after.types.dropLast } }

/-- The body of a member, where calls are looked for in the text. -/
def memberBody? (n : Node) : Option Node :=
  (n.field? "body").or (n.named? ["block", "accessor_list", "arrow_expression_clause"])

/-- Enters a member under its qualified name. -/
def enterMember (env : WalkEnv) (w : Walk) (n : Node) (qualifiedName : String) : Arrival :=
  let w :=
    match memberBody? n with
    | some body =>
      { w with
        members := w.members.push
          { qualifiedName, start := body.start, stop := body.stop
            startLine := body.startLine env.source } }
    | none => w
  w.within (some qualifiedName)

/-- Records a member and enters it. -/
def declareMember (env : WalkEnv) (w : Walk) (n : Node) (name : String) (kind : SymbolKind) :
    Arrival :=
  (w.declare env n name kind memberVisibility).enterMember env n (w.qualify name)

/-- Enters a method. The method that a prelude opens for blocks outside any member is no member. -/
def enterMethod (env : WalkEnv) (w : Walk) (n : Node) : Arrival :=
  match n.fieldText? env.source "name" with
  | none => w.passThrough
  | some name =>
    if name == Context.blockMethod && isPrelude env n then w.within none
    else w.declareMember env n name .method

/-- The name and the declared type of each variable of a field-like declaration. -/
def declarators (source : Bytes) (n : Node) : List (String × String) :=
  (n.namedChildren.filter (·.kind == .variableDeclaration)).flatMap fun declaration =>
    let type := (declaration.fieldText? source "type").getD ""
    (declaration.namedChildren.filter (·.kind == .variableDeclarator)).filterMap fun d =>
      let name := (d.fieldText? source "name").or ((d.named? ["identifier"]).map (·.text source))
      name.map (·, type)

/-- Records the variables of a field declaration. Their initial values belong to the type. -/
def enterField (env : WalkEnv) (w : Walk) (n : Node) : Arrival :=
  let modifiers := n.modifiers env.source
  let kind : SymbolKind := if modifiers.contains "const" then .constant else .field
  let recorded := (declarators env.source n).foldl (fun (w : Walk) (name, type) =>
    w.record env n name kind (w.memberVisibility modifiers) (isExported modifiers)
      (some (" ".intercalate (modifiers ++ [type, name])))) w
  recorded.within none

/-- Records the events of a field-like declaration. -/
def addEvents (env : WalkEnv) (w : Walk) (n : Node) : Walk :=
  let modifiers := n.modifiers env.source
  (declarators env.source n).foldl (fun (w : Walk) (name, type) =>
    w.record env n name .event (w.memberVisibility modifiers) (isExported modifiers)
      (some ("event " ++ type ++ " " ++ name))) w

/-- Applies `f` to the name of a declaration, or passes through a declaration without one. -/
def withName (env : WalkEnv) (w : Walk) (n : Node) (f : String → Arrival) : Arrival :=
  match n.fieldText? env.source "name" with
  | some name => f name
  | none => w.passThrough

/-- Applies `f` to the name of a declaration, or leaves out a declaration without one. -/
def withNameOnly (env : WalkEnv) (w : Walk) (n : Node) (f : String → Arrival) : Arrival :=
  match n.fieldText? env.source "name" with
  | some name => f name
  | none => w.stay

/-- What the node at a site does to the walk. -/
def arrive (env : WalkEnv) (w : Walk) (site : Site) : Arrival :=
  let n := site.node
  match n.kind with
  | .usingDirective => (w.addImport env n).stay
  | .namespaceDeclaration | .fileScopedNamespace => w.enterNamespace env n
  | .classDeclaration | .structDeclaration | .interfaceDeclaration | .recordDeclaration
  | .enumDeclaration => w.enterType env n
  | .delegateDeclaration =>
    w.withNameOnly env n fun name => (w.declare env n name .type typeVisibility).stay
  | .enumMember =>
    w.withNameOnly env n fun name => (w.record env n name .constant .everyone false none).stay
  | .methodDeclaration | .constructorDeclaration => w.enterMethod env n
  | .propertyDeclaration => w.withName env n fun name => w.declareMember env n name .property
  | .indexerDeclaration => w.declareMember env n "this[]" .property
  | .fieldDeclaration => w.enterField env n
  | .eventDeclaration => w.withNameOnly env n fun name => w.declareMember env n name .event
  | .eventFieldDeclaration => (w.addEvents env n).stay
  | .invocation => (w.addCall env site).passThrough
  | .objectCreation => (w.addCreation env n).passThrough
  | _ => w.passThrough

mutual

/-- Visits a node and what is picked below it. -/
def visit (env : WalkEnv) (above : List (Nat × Node)) (w : Walk) : Node → Walk
  | .mk label children =>
    let node := Node.mk label children
    let arrival := w.arrive env { node, above }
    arrival.leave (visitPicked env above node arrival.picks arrival.inside 0 children)

/-- Visits the picked ones among the children of a node, from position `i` on. -/
def visitPicked (env : WalkEnv) (above : List (Nat × Node)) (parent : Node)
    (picks : Nat → Node → Bool) (w : Walk) (i : Nat) : List Node → Walk
  | [] => w
  | child :: rest =>
    let w := if picks i child then visit env ((i, parent) :: above) w child else w
    visitPicked env above parent picks w (i + 1) rest

end

end Walk

end SymbolAtlas
