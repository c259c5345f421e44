import FederatedMock.Coprocessor.Field

namespace FederatedMock

inductive Control where
  | proceed
  | answer (status : Nat)
deriving DecidableEq, Repr

namespace Control

def toJson : Control → Json
  | .proceed => .string "continue"
  | .answer status =>
    .object [("break", (Number.ofInt? status).elim .null .number)]

private def variants : List String := ["continue", "break"]

def ofVariant (name : String) (value : Option Json) : Except PayloadError Control :=
  match name, value with
  | "continue", none => .ok .proceed
  | "continue", some v => do FieldReader.nothing v; return .proceed
  | "break", none => .error (.unexpectedType "unit variant" "newtype variant")
  | "break", some v => do return .answer (← FieldReader.word 16 v)
  | _, _ => .error (.unknownVariant name variants)

def read : FieldReader Control
  | .string name => ofVariant name none
  | .object [(name, v)] => ofVariant name (some v)
  | .object _ => .error (.unexpectedValue "map" "map with a single key")
  | v => FieldReader.mismatch "string or map" v

end Control

structure RequestBody where
  query : Option String
  variableValues : Option Json

namespace RequestBody

open FieldReader

def empty : RequestBody := ⟨none, none⟩

private def typeName : String := "struct SubgraphRequestBody"

def add (b : RequestBody) : String × Json → Except PayloadError RequestBody
  | ("query", v) => do return { b with query := ← optional text v }
  | ("operationName", v) => do
    let _ ← optional text v
    return b
  | ("variables", v) => do return { b with variableValues := ← optional any v }
  | _ => .ok b

def ofItems (items : List Json) : Except PayloadError RequestBody :=
  match items with
  | [] => .error (.unexpectedLength 0 (typeName ++ " with 3 elements"))
  | query :: rest => do
    let b ← empty.add ("query", query)
    match rest with
    | [] => .error (.unexpectedLength 1 (typeName ++ " with 3 elements"))
    | name :: rest =>
      let b ← b.add ("operationName", name)
      match rest with
      | [] => return b
      | values :: rest =>
        let b ← b.add ("variables", values)
        if rest.isEmpty then return b
        else .error (.unexpectedLength items.length "fewer elements in array")

def read : FieldReader RequestBody
  | .object members => members.foldlM add empty
  | .array items => ofItems items
  | v => mismatch typeName v

end RequestBody

structure SubgraphRequest where
  id : Option String
  body : Option RequestBody
  context : Option Json
  serviceName : Option String
  subgraphRequestId : Option String

namespace SubgraphRequest

open FieldReader

def stage : String := "SubgraphRequest"

def empty : SubgraphRequest := ⟨none, none, none, none, none⟩

def add (r : SubgraphRequest) : String × Json → Except PayloadError SubgraphRequest
  | ("version", v) => do
    let _ ← word 8 v
    return r
  | ("stage", v) => do
    let _ ← text v
    return r
  | ("control", v) => do
    let _ ← optional Control.read v
    return r
  | ("id", v) => do return { r with id := ← optional text v }
  | ("headers", v) => do
    let _ ← optional (mapOf (listOf text)) v
    return r
  | ("body", v) => do return { r with body := ← optional RequestBody.read v }
  | ("context", v) => do return { r with context := ← optional any v }
  | ("uri", v) => do
    let _ ← optional text v
    return r
  | ("method", v) => do
    let _ ← optional text v
    return r
  | ("serviceName", v) => do return { r with serviceName := ← optional text v }
  | ("subgraphRequestId", v) => do return { r with subgraphRequestId := ← optional text v }
  | _ => .ok r

def ofMembers (members : Members Json) : Except PayloadError SubgraphRequest := do
  let r ← members.foldlM add empty
  if !members.contains "version" then throw (.missingField "version")
  if !members.contains "stage" then throw (.missingField "stage")
  return r

private def member (name : String) : Option Json → Members Json
  | some v => [(name, v)]
  | none => []

def reply (r : SubgraphRequest) (control : Control) (body : Json) : Json :=
  .object <|
    [("version", .number .one), ("stage", .string stage), ("control", control.toJson),
      ("id", (r.id.map .string).getD .null), ("body", body)] ++
    member "context" r.context ++
    member "serviceName" (r.serviceName.map .string) ++
    member "subgraphRequestId" (r.subgraphRequestId.map .string)

end SubgraphRequest

end FederatedMock
