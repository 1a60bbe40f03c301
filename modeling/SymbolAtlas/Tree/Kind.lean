/-!
# Kinds of C# syntax

The node kinds of the C# grammar that matter to extraction. Kind names are classified once, here;
everything else asks a `Kind`.
-/

namespace SymbolAtlas

/-- The kinds of node that are told apart. -/
inductive Kind where
  | compilationUnit
  | usingDirective
  | namespaceDeclaration
  | fileScopedNamespace
  | classDeclaration
  | structDeclaration
  | interfaceDeclaration
  | recordDeclaration
  | enumDeclaration
  | delegateDeclaration
  | enumMember
  | methodDeclaration
  | constructorDeclaration
  | propertyDeclaration
  | indexerDeclaration
  | fieldDeclaration
  | eventFieldDeclaration
  | eventDeclaration
  | localDeclaration
  | localFunction
  | globalStatement
  | variableDeclaration
  | variableDeclarator
  | parameter
  | baseList
  | invocation
  | memberAccess
  | conditionalAccess
  | memberBinding
  | objectCreation
  | lambda
  | error
  | other
  deriving DecidableEq, Repr

namespace Kind

/-- The kind that a name of the grammar stands for. -/
def ofName (name : String) : Kind :=
  match name with
  | "compilation_unit" => .compilationUnit
  | "using_directive" => .usingDirective
  | "namespace_declaration" => .namespaceDeclaration
  | "file_scoped_namespace_declaration" => .fileScopedNamespace
  | "class_declaration" => .classDeclaration
  | "struct_declaration" => .structDeclaration
  | "interface_declaration" => .interfaceDeclaration
  | "record_declaration" => .recordDeclaration
  | "record_struct_declaration" => .recordDeclaration
  | "enum_declaration" => .enumDeclaration
  | "delegate_declaration" => .delegateDeclaration
  | "enum_member_declaration" => .enumMember
  | "method_declaration" => .methodDeclaration
  | "constructor_declaration" => .constructorDeclaration
  | "property_declaration" => .propertyDeclaration
  | "indexer_declaration" => .indexerDeclaration
  | "field_declaration" => .fieldDeclaration
  | "event_field_declaration" => .eventFieldDeclaration
  | "event_declaration" => .eventDeclaration
  | "local_declaration_statement" => .localDeclaration
  | "local_function_statement" => .localFunction
  | "global_statement" => .globalStatement
  | "variable_declaration" => .variableDeclaration
  | "variable_declarator" => .variableDeclarator
  | "parameter" => .parameter
  | "base_list" => .baseList
  | "invocation_expression" => .invocation
  | "member_access_expression" => .memberAccess
  | "conditional_access_expression" => .conditionalAccess
  | "member_binding_expression" => .memberBinding
  | "object_creation_expression" => .objectCreation
  | "lambda_expression" => .lambda
  | "anonymous_method_expression" => .lambda
  | "parenthesized_lambda_expression" => .lambda
  | "simple_lambda_expression" => .lambda
  | "ERROR" => .error
  | _ => .other

/-- The name a kind is reported under. -/
def label : Kind → String
  | .compilationUnit => "CompilationUnit"
  | .usingDirective => "UsingDirective"
  | .namespaceDeclaration => "NamespaceDeclaration"
  | .fileScopedNamespace => "FileScopedNamespace"
  | .classDeclaration => "ClassDeclaration"
  | .structDeclaration => "StructDeclaration"
  | .interfaceDeclaration => "InterfaceDeclaration"
  | .recordDeclaration => "RecordDeclaration"
  | .enumDeclaration => "EnumDeclaration"
  | .delegateDeclaration => "DelegateDeclaration"
  | .enumMember => "EnumMember"
  | .methodDeclaration => "MethodDeclaration"
  | .constructorDeclaration => "ConstructorDeclaration"
  | .propertyDeclaration => "PropertyDeclaration"
  | .indexerDeclaration => "IndexerDeclaration"
  | .fieldDeclaration => "FieldDeclaration"
  | .eventFieldDeclaration => "EventFieldDeclaration"
  | .eventDeclaration => "EventDeclaration"
  | .localDeclaration => "LocalDeclaration"
  | .localFunction => "LocalFunction"
  | .globalStatement => "GlobalStatement"
  | .variableDeclaration => "VariableDeclaration"
  | .variableDeclarator => "VariableDeclarator"
  | .parameter => "Parameter"
  | .baseList => "BaseList"
  | .invocation => "Invocation"
  | .memberAccess => "MemberAccess"
  | .conditionalAccess => "ConditionalAccess"
  | .memberBinding => "MemberBinding"
  | .objectCreation => "ObjectCreation"
  | .lambda => "Lambda"
  | .error => "Error"
  | .other => "Other"

/-- Declarations that introduce a type. -/
def isType : Kind → Bool
  | .classDeclaration | .structDeclaration | .interfaceDeclaration | .recordDeclaration
  | .enumDeclaration => true
  | _ => false

/-- Declarations that may stand directly in a namespace or a file, and are kept whole. -/
def isTopLevel (k : Kind) : Bool :=
  k.isType || k == .delegateDeclaration

/-- Namespace declarations of both forms. -/
def isNamespace : Kind → Bool
  | .namespaceDeclaration | .fileScopedNamespace => true
  | _ => false

/-- Members whose bodies hold local variables and parameters. -/
def isMember : Kind → Bool
  | .methodDeclaration | .constructorDeclaration | .localFunction | .propertyDeclaration
  | .indexerDeclaration => true
  | _ => false

end Kind

end SymbolAtlas
