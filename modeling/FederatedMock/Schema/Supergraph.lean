import FederatedMock.Schema.Subgraph

namespace FederatedMock

open Graphql

namespace Supergraph

def linkSpecification : String := "https://specs.apollo.dev/link/"
def joinSpecification : String := "https://specs.apollo.dev/join/"

def graphEnum : String := "join__Graph"
def graphMark : String := "join__graph"
def typeMark : String := "join__type"
def implementsMark : String := "join__implements"
def fieldMark : String := "join__field"
def memberMark : String := "join__unionMember"
def valueMark : String := "join__enumValue"

private def argumentOf? (d : Directive) (name : String) : Option Value :=
  (d.arguments.find? fun a => a.name == name).map Argument.value

private def textOf? (d : Directive) (name : String) : Option String :=
  match argumentOf? d name with
  | some (.string s) => some s
  | _ => none

private def isTrue (d : Directive) (name : String) : Bool :=
  match argumentOf? d name with
  | some (.boolean b) => b
  | _ => false

private def graphOf? (d : Directive) : Option String :=
  match argumentOf? d "graph" with
  | some (.enumerator name) => some name
  | _ => none

private def marks (name : String) (directives : List Directive) : List Directive :=
  directives.filter fun d => d.name == name

private def marksFor (graph name : String) (directives : List Directive) : List Directive :=
  (marks name directives).filter fun d => graphOf? d == some graph

private def isIn (graph name : String) (directives : List Directive) : Bool :=
  (marks name directives).isEmpty || !(marksFor graph name directives).isEmpty

private def typeRef? (text : String) : Option TypeRef :=
  match Document.parse? ("type T \x7b f: " ++ text ++ " \x7d") with
  | some [.type t] =>
    match t.body with
    | .object _ [f] => some f.type
    | _ => none
  | _ => none

private def typeIn (graph : String) (directives : List Directive) (type : TypeRef) : TypeRef :=
  (((marksFor graph fieldMark directives).findSome? fun d => textOf? d "type").bind typeRef?).getD
    type

private def inputIn? (graph : String) (v : InputValue) : Option InputValue :=
  if isIn graph fieldMark v.directives then
    some { v with type := typeIn graph v.directives v.type, directives := [] }
  else none

private def fieldIn? (graph : String) (f : FieldDefinition) : Option FieldDefinition :=
  if isIn graph fieldMark f.directives then
    some { f with
      type := typeIn graph f.directives f.type
      arguments := f.arguments.map fun a => { a with directives := [] }
      directives := [] }
  else none

private def membersIn (graph : String) (present : List String) (t : TypeDefinition)
    (members : List String) : List String :=
  if (marks memberMark t.directives).isEmpty then members.filter present.contains
  else (marksFor graph memberMark t.directives).filterMap fun d => textOf? d "member"

private def bodyIn (graph : String) (present : List String) (t : TypeDefinition) : TypeBody :=
  let interfaces := (marksFor graph implementsMark t.directives).filterMap fun d =>
    textOf? d "interface"
  match t.body with
  | .scalar => .scalar
  | .object _ fields => .object interfaces (fields.filterMap (fieldIn? graph))
  | .interface _ fields =>
    let fields := fields.filterMap (fieldIn? graph)
    if (marksFor graph typeMark t.directives).any fun d => isTrue d "isInterfaceObject" then
      .object interfaces fields
    else .interface interfaces fields
  | .union members => .union (membersIn graph present t members)
  | .enumeration values =>
    .enumeration ((values.filter fun v => isIn graph valueMark v.directives).map fun v =>
      { v with directives := [] })
  | .input fields => .input (fields.filterMap (inputIn? graph))

private def keysIn (graph : String) (t : TypeDefinition) : List Directive :=
  (marksFor graph typeMark t.directives).filterMap fun d =>
    (textOf? d "key").map fun key => ⟨"key", [⟨"fields", .string key⟩]⟩

private def hasContent (t : TypeDefinition) : Bool :=
  match t.body with
  | .scalar => true
  | .object _ fields => !fields.isEmpty
  | .interface _ fields => !fields.isEmpty
  | .union members => !members.isEmpty
  | .enumeration values => !values.isEmpty
  | .input fields => !fields.isEmpty

def typesIn (graph : String) (types : List TypeDefinition) : List TypeDefinition :=
  let marked := types.filter fun t => !(marksFor graph typeMark t.directives).isEmpty
  let present := marked.map TypeDefinition.name
  let own := marked.map fun t =>
    { t with directives := keysIn graph t, body := bodyIn graph present t }
  own.filter hasContent

private def rootsIn (roots : Roots) (types : List TypeDefinition) : List (OperationKind × String) :=
  let isPresent (name : String) : Bool := types.any fun t => t.name == name
  let own (kind : OperationKind) : List (OperationKind × String) :=
    ((roots.get kind).filter isPresent).toList.map fun name => (kind, name)
  [(.query, ((roots.query.filter isPresent).getD "Query"))] ++ own .mutation ++ own .subscription

def documentIn (graph : String) (roots : Roots) (types : List TypeDefinition) : Document :=
  let own := typesIn graph types
  .schema ⟨false, none, [], rootsIn roots own⟩ :: own.map .type

private def isPrefixed (front text : String) : Bool :=
  front.toList.isPrefixOf text.toList

private def isLinkedTo (specification : String) (directives : List Directive) : Bool :=
  (marks "link" directives).any fun d =>
    ((textOf? d "url").map (isPrefixed specification)).getD false

private def graphs? (types : List TypeDefinition) : Option (List (String × String)) := do
  let t ← types.find? fun t => t.name == graphEnum
  match t.body with
  | .enumeration values =>
    values.mapM fun v => do
      let mark ← (marks graphMark v.directives).head?
      return (v.name, ← textOf? mark "name")
  | _ => none

/-- The subgraphs of a composed schema by service, sorted. There are none of a text that is not a
valid schema or is not composed. -/
def subgraphs? (sdl : String) : Option (Members Subgraph) := do
  let d ← Document.parse? sdl
  let system ← (validateSchema d).toOption
  if isLinkedTo linkSpecification system.schemaDirectives &&
      isLinkedTo joinSpecification system.schemaDirectives then
    let types := d.filterMap fun
      | .type t => some t
      | _ => none
    let named ← (← graphs? types).mapM fun (graph, service) => do
      return (service, ← (Subgraph.ofDocument (documentIn graph system.roots types)).toOption)
    return Members.sorted (Members.ofList named)
  else none

end Supergraph

end FederatedMock
