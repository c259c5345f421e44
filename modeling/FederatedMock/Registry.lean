import FederatedMock.Generation.Correction
import FederatedMock.Operation.Compile

namespace FederatedMock

structure Registry where
  subgraphs : Members Subgraph

namespace Registry

def empty : Registry := ⟨[]⟩

def insert (r : Registry) (service : String) (s : Subgraph) : Registry :=
  ⟨r.subgraphs.insert service s⟩

def ofList (named : List (String × Subgraph)) : Registry :=
  ⟨Members.ofList named⟩

def get? (r : Registry) (service : String) : Option Subgraph :=
  r.subgraphs.get? service

def services (r : Registry) : List String :=
  Names.sorted r.subgraphs.keys

def size (r : Registry) : Nat :=
  r.subgraphs.length

def compile? (r : Registry) (service operation : String) :
    Except OperationError (Option Shape) :=
  match r.get? service with
  | none => .ok none
  | some s => (s.compile operation).map some

def correct {σ : Type} (r : Registry) (service operation : String) (data : Json) (g : Generator σ) :
    StateM σ (Except OperationError Correction) :=
  match r.compile? service operation with
  | .error e => return .error e
  | .ok shape? => return .ok (← correctWith shape? data g)

end Registry

end FederatedMock
