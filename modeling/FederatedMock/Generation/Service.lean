import FederatedMock.Configuration.Basic
import FederatedMock.Generation.Basic
import FederatedMock.Url.Parser

namespace FederatedMock

structure Service where
  url : Url
  apiKey : String

inductive ServiceError where
  | invalidEndpoint (e : Url.UrlError)
  | requestFailed
  | emptyResponse
deriving DecidableEq, Repr

namespace ServiceError

def message : ServiceError → String
  | .invalidEndpoint e => "invalid generator endpoint: " ++ e.message
  | .requestFailed => "the request for generated content failed"
  | .emptyResponse => "the generator response has no text"

end ServiceError

namespace Service

def contentType : String := "application/json"

def ofSettings (s : GeneratorSettings) (apiKey : String) : Except ServiceError Service :=
  match s.endpoint.join s!"v1beta/models/{s.model}:generateContent" with
  | .ok url => .ok ⟨url, apiKey⟩
  | .error e => .error (.invalidEndpoint e)

def requestBody (prompt : String) : Json :=
  .object [("contents", .array [.object [("role", .string "user"),
    ("parts", .array [.object [("text", .string prompt)]])]])]

private def onlyField? (name : String) : Json → Option (Option Json)
  | .object members => some (Members.get? name members)
  | .array [] => some none
  | .array [v] => some (some v)
  | _ => none

private def listOf? {α : Type} (read : Json → Option α) : Option Json → Option (List α)
  | none => some []
  | some (.array items) => items.mapM read
  | some _ => none

private def partText? (part : Json) : Option String := do
  match ← onlyField? "text" part with
  | some (.string s) => some s
  | some .null => some ""
  | none => some ""
  | some _ => none

private def contentText? (content : Json) : Option String := do
  let texts ← listOf? partText? (← onlyField? "parts" content)
  return Text.join "" texts

private def candidateText? (candidate : Json) : Option String := do
  match ← onlyField? "content" candidate with
  | some content => contentText? content
  | none => some ""

def candidateTexts? (response : Json) : Option (List String) := do
  listOf? candidateText? (← onlyField? "candidates" response)

private def isBodiless (status : Nat) : Bool :=
  status == 204 || status == 304

def responseText (status : Nat) (body : String) : Except ServiceError String :=
  if status ≥ 400 || isBodiless status then .error .requestFailed
  else
    match (Json.parse body).toOption.bind candidateTexts? with
    | none => .error .requestFailed
    | some texts =>
      match texts.headD "" with
      | "" => .error .emptyResponse
      | text => .ok text

end Service

end FederatedMock
