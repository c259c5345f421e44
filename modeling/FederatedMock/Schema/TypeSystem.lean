import FederatedMock.Schema.Problem
import FederatedMock.Schema.Supplement

/-!
# Type systems

A document of the type system put together: each type with all its extensions, each directive, and
the root types. Putting together already finds what is stated twice, and extensions that do not go
with the type they extend. An extension that comes before a definition of another kind, or that
extends a type nobody defines, is not held against the document.
-/

namespace FederatedMock

open Graphql

structure ResolvedType where
  name : String
  builtIn : Bool
  directives : List Directive
  body : TypeBody

structure Roots where
  query : Option String
  mutation : Option String
  subscription : Option String
deriving DecidableEq, Repr

def Roots.get (r : Roots) : OperationKind → Option String
  | .query => r.query
  | .mutation => r.mutation
  | .subscription => r.subscription

structure TypeSystem where
  types : Members ResolvedType
  directives : Members DirectiveDefinition
  roots : Roots
  schemaDirectives : List Directive

/-! ## Built-in definitions -/

def builtInScalars : List String :=
  ["String", "ID", "Int", "Float", "Boolean"]

private def introspectionObjects : List String :=
  ["__Schema", "__Type", "__Field", "__InputValue", "__EnumValue", "__Directive"]

private def introspectionEnums : List (String × List String) :=
  [("__TypeKind",
      ["SCALAR", "OBJECT", "INTERFACE", "UNION", "ENUM", "INPUT_OBJECT", "LIST", "NON_NULL"]),
    ("__DirectiveLocation",
      ["QUERY", "MUTATION", "SUBSCRIPTION", "FIELD", "FRAGMENT_DEFINITION", "FRAGMENT_SPREAD",
        "INLINE_FRAGMENT", "VARIABLE_DEFINITION", "SCHEMA", "SCALAR", "OBJECT",
        "FIELD_DEFINITION", "ARGUMENT_DEFINITION", "INTERFACE", "UNION", "ENUM", "ENUM_VALUE",
        "INPUT_OBJECT", "INPUT_FIELD_DEFINITION"])]

def builtInTypes : List ResolvedType :=
  builtInScalars.map (fun name => ⟨name, true, [], .scalar⟩) ++
    introspectionObjects.map (fun name => ⟨name, true, [], .object [] []⟩) ++
    introspectionEnums.map (fun e =>
      ⟨e.1, true, [], .enumeration (e.2.map fun value => ⟨none, value, []⟩)⟩)

private def builtInDirective (name : String) (argument : Option InputValue)
    (locations : List String) : DirectiveDefinition :=
  ⟨none, name, argument.toList, false, locations⟩

def builtInDirectiveDefinitions : List DirectiveDefinition :=
  let condition : InputValue := ⟨none, "if", .named "Boolean" true, none, []⟩
  let reason : InputValue :=
    ⟨none, "reason", .named "String" false, some (.string "No longer supported"), []⟩
  let url : InputValue := ⟨none, "url", .named "String" true, none, []⟩
  let executable := ["FIELD", "FRAGMENT_SPREAD", "INLINE_FRAGMENT"]
  [builtInDirective "skip" condition executable,
    builtInDirective "include" condition executable,
    builtInDirective "deprecated" reason
      ["FIELD_DEFINITION", "ARGUMENT_DEFINITION", "INPUT_FIELD_DEFINITION", "ENUM_VALUE"],
    builtInDirective "specifiedBy" url ["SCALAR"],
    builtInDirective "oneOf" none ["INPUT_OBJECT"]]

/-! ## Types -/

def sameKind : TypeBody → TypeBody → Bool
  | .scalar, .scalar => true
  | .object _ _, .object _ _ => true
  | .interface _ _, .interface _ _ => true
  | .union _, .union _ => true
  | .enumeration _, .enumeration _ => true
  | .input _, .input _ => true
  | _, _ => false

def gather {σ α ε : Type} (step : σ → α → σ × List ε) : σ → List α → σ × List ε
  | s, [] => (s, [])
  | s, a :: rest =>
    let (s, found) := step s a
    let (s, more) := gather step s rest
    (s, found ++ more)

def addNew {α : Type} (name : α → String) (present : List α) (a : α) : List α × List String :=
  if present.any fun b => name b == name a then (present, [name a]) else (present ++ [a], [])

def addNamed {α : Type} (name : α → String) (present more : List α) :
    List α × List String :=
  gather (addNew name) present more

def addBody : TypeBody → TypeBody → TypeBody × List String
  | .object is fs, .object is' fs' =>
    let (interfaces, again) := addNamed id is is'
    let (fields, again') := addNamed FieldDefinition.name fs fs'
    (.object interfaces fields, again ++ again')
  | .interface is fs, .interface is' fs' =>
    let (interfaces, again) := addNamed id is is'
    let (fields, again') := addNamed FieldDefinition.name fs fs'
    (.interface interfaces fields, again ++ again')
  | .union ms, .union ms' =>
    let (members, again) := addNamed id ms ms'
    (.union members, again)
  | .enumeration vs, .enumeration vs' =>
    let (values, again) := addNamed EnumValue.name vs vs'
    (.enumeration values, again)
  | .input fs, .input fs' =>
    let (fields, again) := addNamed InputValue.name fs fs'
    (.input fields, again)
  | body, _ => (body, [])

def emptyBody : TypeBody → TypeBody
  | .scalar => .scalar
  | .object _ _ => .object [] []
  | .interface _ _ => .interface [] []
  | .union _ => .union []
  | .enumeration _ => .enumeration []
  | .input _ => .input []

def addPart (t : ResolvedType) (part : TypeDefinition) :
    ResolvedType × List SchemaProblem :=
  let (body, again) := addBody t.body part.body
  ({ t with directives := t.directives ++ part.directives, body },
    again.map (.repeatedMember t.name))

def addParts (t : ResolvedType) (parts : List TypeDefinition) :
    ResolvedType × List SchemaProblem :=
  gather addPart t parts

def emptyType (part : TypeDefinition) : ResolvedType :=
  ⟨part.name, false, [], emptyBody part.body⟩

def addExtensions (t : ResolvedType) (extensions : List TypeDefinition) :
    ResolvedType × List SchemaProblem :=
  let (fitting, others) := extensions.partition fun e => sameKind t.body e.body
  let (t, problems) := addParts t fitting
  (t, problems ++ others.map fun e => .extensionOfOtherKind e.name)

/-- A type put together from what a document says of it, in order: extensions from before its
definition count if they are of its kind; without a definition the first extension settles the
kind. -/
def resolve (builtIn? : Option ResolvedType) (parts : List TypeDefinition) :
    Option ResolvedType × List SchemaProblem :=
  let extensions := parts.filter TypeDefinition.extension
  match builtIn? with
  | some t =>
    let (t, problems) := addExtensions t extensions
    let again := (parts.filter fun p => !p.extension).map fun p => .repeatedType p.name
    (some t, problems ++ again)
  | none =>
    match parts.span TypeDefinition.extension with
    | (before, definition :: after) =>
      let early := before.filter fun e => sameKind definition.body e.body
      let (t, problems) := addParts (emptyType definition) (definition :: early)
      let (t, more) := addExtensions t (after.filter TypeDefinition.extension)
      let again := (after.filter fun p => !p.extension).map fun p => .repeatedType p.name
      (some t, problems ++ more ++ again)
    | (first :: rest, []) =>
      let (t, problems) := addExtensions (emptyType first) (first :: rest)
      (some t, problems)
    | ([], []) => (none, [])

def typeParts (d : Document) : List TypeDefinition :=
  d.filterMap fun
    | .type t => some t
    | _ => none

def enterType (parts : List TypeDefinition) (table : Members ResolvedType) (name : String) :
    Members ResolvedType × List SchemaProblem :=
  let builtIn? := builtInTypes.find? fun t => t.name == name
  match resolve builtIn? (parts.filter fun p => p.name == name) with
  | (some t, problems) => (table ++ [(name, t)], problems)
  | (none, problems) => (table, problems)

def resolveTypes (d : Document) : Members ResolvedType × List SchemaProblem :=
  let parts := typeParts d
  gather (enterType parts) []
    (Names.ofList (builtInTypes.map ResolvedType.name ++ parts.map TypeDefinition.name))

/-! ## Directives -/

def resolveDirectives (d : Document) : Members DirectiveDefinition × List SchemaProblem :=
  let stated := d.filterMap fun
    | .directive definition => some definition
    | _ => none
  let (own, again) := addNamed DirectiveDefinition.name [] stated
  let builtIn := builtInDirectiveDefinitions.filter fun b => !own.any fun o => o.name == b.name
  ((builtIn ++ own).map fun definition => (definition.name, definition),
    again.map .repeatedDirectiveDefinition)

/-! ## Roots -/

def addRoot (roots : Roots) (root : OperationKind × String) : Roots × List SchemaProblem :=
  match roots.get root.1 with
  | some _ => (roots, [.repeatedRoot root.1.text])
  | none =>
    match root.1 with
    | .query => ({ roots with query := some root.2 }, [])
    | .mutation => ({ roots with mutation := some root.2 }, [])
    | .subscription => ({ roots with subscription := some root.2 }, [])

def isObject (types : Members ResolvedType) (name : String) : Bool :=
  match types.get? name with
  | some t => match t.body with
    | .object _ _ => true
    | _ => false
  | none => false

def conventionalRoots (types : Members ResolvedType) : Roots :=
  let root (name : String) : Option String := if isObject types name then some name else none
  ⟨root "Query", root "Mutation", root "Subscription"⟩

def schemaParts (d : Document) : List SchemaDefinition :=
  d.filterMap fun
    | .schema s => some s
    | _ => none

def schemaDefinitions (d : Document) : List SchemaDefinition :=
  (schemaParts d).filter fun s => !s.extension

def usedParts (d : Document) : List SchemaDefinition :=
  (schemaDefinitions d).take 1 ++ (schemaParts d).filter SchemaDefinition.extension

def statedRoots (d : Document) : List (OperationKind × String) :=
  (usedParts d).flatMap SchemaDefinition.roots

def resolveRoots (d : Document) (types : Members ResolvedType) : Roots × List SchemaProblem :=
  -- Extensions alone may state roots, and then those by convention do not count.
  if (schemaDefinitions d).isEmpty && (statedRoots d).isEmpty then (conventionalRoots types, [])
  else gather addRoot ⟨none, none, none⟩ (statedRoots d)

def resolveSchema (d : Document) (types : Members ResolvedType) :
    Roots × List Directive × List SchemaProblem :=
  let repeated := ((schemaDefinitions d).drop 1).map fun _ => SchemaProblem.repeatedSchema
  let (roots, problems) := resolveRoots d types
  (roots, (usedParts d).flatMap SchemaDefinition.directives, repeated ++ problems)

def TypeSystem.ofDocument (d : Document) : TypeSystem × List SchemaProblem :=
  let executable := (d.filter fun
    | .operation _ => true
    | .fragment _ => true
    | _ => false).map fun _ => SchemaProblem.executableDefinition
  let (types, typeProblems) := resolveTypes d
  let (directives, directiveProblems) := resolveDirectives d
  let (roots, schemaDirectives, schemaProblems) := resolveSchema d types
  (⟨types, directives, roots, schemaDirectives⟩,
    executable ++ typeProblems ++ directiveProblems ++ schemaProblems)

end FederatedMock
