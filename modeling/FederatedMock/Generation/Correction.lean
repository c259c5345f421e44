import FederatedMock.Generation.Basic
import FederatedMock.Json.Printer
import FederatedMock.Shape.Validate

namespace FederatedMock

namespace Prompt

def fenced (tag body : String) : String :=
  "```" ++ tag ++ "\n" ++ body ++ "\n```"

def saysSomething : Json → Bool
  | .null => false
  | .object [] => false
  | _ => true

def mock (operation : String) (values : Option Json) : String :=
  let request := "Give me mock data that fulfills this query:\n" ++ fenced "graphql" operation
  match values with
  | some v =>
    if saysSomething v then request ++ "\n\nWith variables:\n" ++ fenced "json" v.pretty
    else request
  | none => request

def issueLine (issue : Issue) : String :=
  s!"{Path.dotted issue.path} is the wrong type. {issue.message}."

def correction (data : Json) (issues : List Issue) : String :=
  "Return this data:\n" ++ fenced "json" data.pretty ++ "\n\nwith the following errors fixed:\n" ++
    Text.join "\n" (issues.map issueLine)

end Prompt

inductive Outcome where
  | accepted
  | unvalidated
  | givenUp
  | exhausted
  | generationFailed
deriving DecidableEq, Repr

def Outcome.text : Outcome → String
  | .accepted => "accepted"
  | .unvalidated => "unvalidated"
  | .givenUp => "given_up"
  | .exhausted => "exhausted"
  | .generationFailed => "generation_failed"

structure Correction where
  data : Json
  outcome : Outcome
  corrections : Nat

/-- Calls of the generator for one request, the one for the data itself included. -/
def maxAttempts : Nat := 2

def dataKey : String := "data"

/-- The data in an envelope; a value without one, or with null in it, is the data itself. -/
def unwrapData (v : Json) : Json :=
  match v with
  | .object members =>
    match Members.get? dataKey members with
    | some data => if data.isNull then v else data
    | none => v
  | _ => v

def correctFrom {σ : Type} (shape : Shape) (g : Generator σ) :
    Nat → Nat → Json → StateM σ Correction
  | left, attempts, candidate =>
    match shape.validate candidate with
    | .ok data => return ⟨data, .accepted, attempts - 1⟩
    -- Not reached, since validation fails with an issue at least.
    | .error [] => return ⟨candidate, .givenUp, attempts - 1⟩
    | .error issues =>
      match left with
      | 0 => return ⟨candidate, .exhausted, attempts - 1⟩
      | left + 1 => do
        match ← generate g (Prompt.correction candidate issues) with
        | .ok v => correctFrom shape g left (attempts + 1) (unwrapData v)
        | .error _ => return ⟨candidate, .generationFailed, attempts⟩

def correct {σ : Type} (shape : Shape) (data : Json) (g : Generator σ) : StateM σ Correction :=
  correctFrom shape g (maxAttempts - 1) 1 (unwrapData data)

def correctWith {σ : Type} (shape? : Option Shape) (data : Json) (g : Generator σ) :
    StateM σ Correction :=
  match shape? with
  | some shape => correct shape data g
  | none => return ⟨unwrapData data, .unvalidated, 0⟩

end FederatedMock
