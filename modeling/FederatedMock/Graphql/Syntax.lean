namespace FederatedMock.Graphql

inductive Value where
  | variable (name : String)
  | int (text : String)
  | float (text : String)
  | string (s : String)
  | boolean (b : Bool)
  | null
  | enumerator (name : String)
  | list (items : List Value)
  | object (fields : List (String × Value))
deriving Inhabited

structure Argument where
  name : String
  value : Value
deriving Inhabited

structure Directive where
  name : String
  arguments : List Argument
deriving Inhabited

inductive TypeRef where
  | named (name : String) (nonNull : Bool)
  | list (item : TypeRef) (nonNull : Bool)
deriving DecidableEq, Repr, Inhabited

namespace TypeRef

def base : TypeRef → String
  | .named name _ => name
  | .list item _ => item.base

def isNonNull : TypeRef → Bool
  | .named _ nonNull => nonNull
  | .list _ nonNull => nonNull

def text : TypeRef → String
  | .named name nonNull => if nonNull then name ++ "!" else name
  | .list item nonNull => "[" ++ item.text ++ (if nonNull then "]!" else "]")

end TypeRef

inductive Selection where
  | field (responseName : Option String) (name : String) (arguments : List Argument)
      (directives : List Directive) (selections : List Selection)
  | spread (fragment : String) (directives : List Directive)
  | inline (condition : Option String) (directives : List Directive) (selections : List Selection)
deriving Inhabited

inductive OperationKind where
  | query
  | mutation
  | subscription
deriving DecidableEq, Repr, Inhabited

def OperationKind.text : OperationKind → String
  | .query => "query"
  | .mutation => "mutation"
  | .subscription => "subscription"

structure VariableDefinition where
  name : String
  type : TypeRef
  default : Option Value
  directives : List Directive

structure Operation where
  kind : OperationKind
  name : Option String
  variableDefinitions : List VariableDefinition
  directives : List Directive
  selections : List Selection

structure Fragment where
  name : String
  condition : String
  directives : List Directive
  selections : List Selection

structure InputValue where
  description : Option String
  name : String
  type : TypeRef
  default : Option Value
  directives : List Directive
deriving Inhabited

structure FieldDefinition where
  description : Option String
  name : String
  arguments : List InputValue
  type : TypeRef
  directives : List Directive
deriving Inhabited

structure EnumValue where
  description : Option String
  name : String
  directives : List Directive
deriving Inhabited

inductive TypeBody where
  | scalar
  | object (interfaces : List String) (fields : List FieldDefinition)
  | interface (interfaces : List String) (fields : List FieldDefinition)
  | union (members : List String)
  | enumeration (values : List EnumValue)
  | input (fields : List InputValue)

structure TypeDefinition where
  extension : Bool
  description : Option String
  name : String
  directives : List Directive
  body : TypeBody

structure SchemaDefinition where
  extension : Bool
  description : Option String
  directives : List Directive
  roots : List (OperationKind × String)

structure DirectiveDefinition where
  description : Option String
  name : String
  arguments : List InputValue
  repeatable : Bool
  locations : List String

inductive Definition where
  | operation (o : Operation)
  | fragment (f : Fragment)
  | schema (s : SchemaDefinition)
  | directive (d : DirectiveDefinition)
  | type (t : TypeDefinition)

abbrev Document := List Definition

def Document.operation? (d : Document) : Option Operation :=
  d.findSome? fun
    | .operation o => some o
    | _ => none

def responseKey (responseName : Option String) (name : String) : String :=
  responseName.getD name

end FederatedMock.Graphql
