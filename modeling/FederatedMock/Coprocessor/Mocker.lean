import FederatedMock.Coprocessor.Request
import FederatedMock.Operation.Typename
import FederatedMock.Registry

/-!
# Mocker

Answers the payloads of a router. Subgraph requests are answered at once, with generated data or
with an error; all other payloads go on unchanged. An operation with a defect is answered before
anything is generated.
-/

namespace FederatedMock

inductive MockError where
  | missingQuery
  | operation (e : OperationError)
  | generation (e : GenerationError)
deriving DecidableEq, Repr

namespace MockError

def code : MockError → String
  | .missingQuery => "GRAPHQL_PARSE_FAILED"
  | .operation e => e.code
  | .generation _ => "GENERATION_FAILED"

def message : MockError → String
  | .missingQuery => "the subgraph request has no query"
  | .operation e => e.message
  | .generation e => e.message

def response (e : MockError) : Json :=
  .object [("errors", .array [.object [("message", .string e.message),
    ("extensions", .object [("code", .string e.code)])]])]

end MockError

structure Mocker where
  registry : Registry
  addTypename : Bool

namespace Mocker

def controlKey : String := "control"

def continueWith : Json → Json
  | .object members => .object (Members.insert controlKey Control.proceed.toJson members)
  | v => v

/-- Data as the body of a response; data that has a member of that name is such a body already. -/
def envelope (v : Json) : Json :=
  match v.get? dataKey with
  | some _ => v
  | none => .object [(dataKey, v)]

def operation? (m : Mocker) (query : String) : Option String :=
  match Graphql.Document.parse? query with
  | none => none
  | some d => some (Text.trimRight (if m.addTypename then d.addTypename else d).text)

def prepare (m : Mocker) (service : String) (body : RequestBody) :
    Except MockError (String × Option Shape) :=
  match body.query with
  | none => .error .missingQuery
  | some query =>
    match m.operation? query with
    | none => .error (.operation .syntaxError)
    | some operation =>
      match m.registry.compile? service operation with
      | .error e => .error (.operation e)
      | .ok shape? => .ok (operation, shape?)

def mock {σ : Type} (m : Mocker) (g : Generator σ) (service : String) (body : RequestBody) :
    StateM σ (Except MockError Correction) :=
  match m.prepare service body with
  | .error e => return .error e
  | .ok (operation, shape?) => do
    match ← generate g (Prompt.mock operation body.variableValues) with
    | .error e => return .error (.generation e)
    | .ok data => return .ok (← correctWith shape? data g)

def answer {σ : Type} (m : Mocker) (g : Generator σ) (r : SubgraphRequest) : StateM σ Json := do
  -- A request that names no service is one for the service without a name.
  match ← m.mock g (r.serviceName.getD "") (r.body.getD .empty) with
  | .ok c => return r.reply (.answer 200) (envelope c.data)
  | .error e => return r.reply (.answer 500) e.response

def request? : Json → Option (Members Json)
  | .object members =>
    match Members.get? "stage" members with
    | some (.string s) => if s = SubgraphRequest.stage then some members else none
    | _ => none
  | _ => none

def handle {σ : Type} (m : Mocker) (g : Generator σ) (payload : Json) :
    StateM σ (Except PayloadError Json) :=
  match request? payload with
  | none => return .ok (continueWith payload)
  | some members =>
    match SubgraphRequest.ofMembers members with
    | .error e => return .error e
    | .ok r => return .ok (← m.answer g r)

end Mocker

end FederatedMock
