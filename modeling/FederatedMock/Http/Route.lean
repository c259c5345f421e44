import FederatedMock.Coprocessor.Mocker
import FederatedMock.Http.MediaType
import FederatedMock.Json.Reader

namespace FederatedMock.Http

structure Request where
  method : String
  target : String
  contentType : Option String
  body : String

structure Response where
  status : Nat
  body : Option Json

def path (target : String) : String :=
  String.ofList (target.toList.takeWhile fun c => c != '?' && c != '#')

def health : Json :=
  .object [("status", .string "OK"), ("service", .string "subgraph-mocker")]

def payloadError (e : PayloadError) : Json :=
  .object [("errors", .array [.object [("message", .string e.message)]])]

def postPayload {σ : Type} (m : Mocker) (g : Generator σ) (r : Request) : StateM σ Response :=
  if !((r.contentType.bind MediaType.parse?).any MediaType.isJson) then return ⟨415, none⟩
  else
    match Json.parse r.body with
    | .error _ => return ⟨400, none⟩
    | .ok payload => do
      match ← m.handle g payload with
      | .ok reply => return ⟨200, some reply⟩
      | .error e => return ⟨400, some (payloadError e)⟩

def respond {σ : Type} (m : Mocker) (g : Generator σ) (r : Request) : StateM σ Response :=
  match path r.target with
  | "/" => if r.method = "POST" then postPayload m g r else return ⟨405, none⟩
  | "/health" =>
    match r.method with
    | "GET" => return ⟨200, some health⟩
    | "HEAD" => return ⟨200, none⟩
    | _ => return ⟨405, none⟩
  | _ => return ⟨404, none⟩

end FederatedMock.Http
