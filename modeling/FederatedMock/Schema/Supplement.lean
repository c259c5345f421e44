import FederatedMock.Graphql.Syntax
import FederatedMock.Ordered.Basic

/-!
# The federation supplement

A subgraph document is not a whole schema: it applies directives without declaring them, and the
fields by which a router reaches entities are left out. `supplement` gives the definitions that are
missing; the document followed by them is complete.
-/

namespace FederatedMock

open Graphql

def anyScalar : String := "_Any"
def serviceType : String := "_Service"
def entityUnion : String := "_Entity"
def entitiesField : String := "_entities"
def serviceField : String := "_service"

def builtInDirectives : List String :=
  ["skip", "include", "deprecated", "specifiedBy", "oneOf"]

def typeSystemLocations : List String :=
  ["SCHEMA", "SCALAR", "OBJECT", "FIELD_DEFINITION", "ARGUMENT_DEFINITION", "INTERFACE", "UNION",
    "ENUM", "ENUM_VALUE", "INPUT_OBJECT", "INPUT_FIELD_DEFINITION"]

namespace Graphql.Definition

private def fieldApplications (f : FieldDefinition) : List Directive :=
  f.directives ++ f.arguments.flatMap InputValue.directives

def applications : Definition → List Directive
  | .operation _ => []
  | .fragment _ => []
  | .schema s => s.directives
  | .directive d => d.arguments.flatMap InputValue.directives
  | .type t =>
    t.directives ++ match t.body with
      | .scalar => []
      | .object _ fields => fields.flatMap fieldApplications
      | .interface _ fields => fields.flatMap fieldApplications
      | .union _ => []
      | .enumeration values => values.flatMap EnumValue.directives
      | .input fields => fields.flatMap InputValue.directives

def definedType? : Definition → Option String
  | .type t => if t.extension then none else some t.name
  | _ => none

def definedDirective? : Definition → Option String
  | .directive d => some d.name
  | _ => none

def objectFields? : Definition → Option (String × List FieldDefinition)
  | .type t =>
    match t.body with
    | .object _ fields => some (t.name, fields)
    | _ => none
  | _ => none

end Graphql.Definition

/-- Whether a directive marks entities; it may have been imported under a prefix. -/
def isKeyDirective (name : String) : Bool :=
  name == "key" || name.endsWith "__key"

namespace Graphql.Document

def appliedDirectives (d : Document) : Members (List String) :=
  (d.flatMap Definition.applications).foldl (fun table directive =>
    let known := (table.get? directive.name).getD []
    table.insert directive.name (Names.addAll known (directive.arguments.map Argument.name))) []

def entities (d : Document) : List String :=
  Names.ofList <| d.filterMap fun
    | .type t =>
      match t.body with
      | .object _ _ =>
        if t.directives.any fun directive => isKeyDirective directive.name then some t.name
        else none
      | _ => none
    | _ => none

def queryRoots : Definition → List String
  | .schema s => (s.roots.filter fun root => root.1 == .query).map Prod.snd
  | _ => []

/-- The type of the query root: the last one named, or `Query`. -/
def queryRoot (d : Document) : String :=
  (d.flatMap queryRoots).getLast?.getD "Query"

def statedFields (d : Document) (type : String) : List (List FieldDefinition) :=
  d.filterMap fun definition =>
    match definition.objectFields? with
    | some (name, fields) => if name = type then some fields else none
    | none => none

def definesType (d : Document) (name : String) : Bool :=
  (d.filterMap Definition.definedType?).contains name

def definesDirective (d : Document) (name : String) : Bool :=
  (d.filterMap Definition.definedDirective?).contains name

end Graphql.Document

namespace Supplement

def typeDefinition (name : String) (body : TypeBody) : Definition :=
  .type ⟨false, none, name, [], body⟩

def plainField (name : String) (type : TypeRef) : FieldDefinition :=
  ⟨none, name, [], type, []⟩

private def parameter (name : String) (type : TypeRef) : InputValue :=
  ⟨none, name, type, none, []⟩

def anyDefinition : Definition :=
  typeDefinition anyScalar .scalar

def serviceDefinition : Definition :=
  typeDefinition serviceType (.object [] [plainField "sdl" (.named "String" false)])

def entityDefinition (entities : List String) : Definition :=
  typeDefinition entityUnion (.union entities)

def directiveDefinition (name : String) (arguments : List String) : Definition :=
  .directive ⟨none, name, arguments.map fun a => parameter a (.named anyScalar false), true,
    typeSystemLocations⟩

def entitiesRootField : FieldDefinition :=
  ⟨none, entitiesField, [parameter "representations" (.list (.named anyScalar true) true)],
    .list (.named entityUnion false) true, []⟩

def serviceRootField : FieldDefinition :=
  plainField serviceField (.named serviceType true)

def directives (d : Document) : List Definition :=
  d.appliedDirectives.filterMap fun (name, arguments) =>
    if builtInDirectives.contains name || d.definesDirective name then none
    else some (directiveDefinition name arguments)

def rootFields (d : Document) : List FieldDefinition :=
  let stated := (d.statedFields d.queryRoot).flatten.map FieldDefinition.name
  -- Without entities there is nothing to reach.
  (if !d.entities.isEmpty && !stated.contains entitiesField then [entitiesRootField] else []) ++
    (if stated.contains serviceField then [] else [serviceRootField])

def rootDefinition (d : Document) : List Definition :=
  match rootFields d with
  | [] => []
  | fields =>
    let isStated := !(d.statedFields d.queryRoot).isEmpty
    [.type ⟨isStated, none, d.queryRoot, [], .object [] fields⟩]

end Supplement

open Supplement in
def supplement (d : Document) : Document :=
  (if d.definesType anyScalar then [] else [anyDefinition]) ++
  (if d.definesType serviceType then [] else [serviceDefinition]) ++
  (if d.entities.isEmpty || d.definesType entityUnion then [] else [entityDefinition d.entities]) ++
  directives d ++ rootDefinition d

def augment (d : Document) : Document :=
  d ++ supplement d

end FederatedMock
