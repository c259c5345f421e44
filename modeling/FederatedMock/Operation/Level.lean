import FederatedMock.Graphql.Syntax
import FederatedMock.Operation.Error
import FederatedMock.Schema.Subgraph

/-!
# Selections of one level

A selection set selects fields itself and through fragments. `Level.expand` flattens fragments that
apply to the parent type, so that the fields of a level stand in one list, and sets aside fragments
on other types with their conditions. A named fragment counts once for a level. Every selection
looked at is counted, and both the count and the nesting of fragments have limits.
-/

namespace FederatedMock

open Graphql

/-- Selections looked at for one operation, those of fragments counted each time. -/
def selectionLimit : Nat := 100000

/-- Nested selection sets, those of fragments included, below the root. -/
def recursionLimit : Nat := 512

abbrev Compiling := StateT Nat (Except OperationError)

structure FieldSelection where
  responseName : Option String
  name : String
  selections : List Selection

def FieldSelection.key (f : FieldSelection) : String :=
  responseKey f.responseName f.name

structure ConditionalFragment where
  condition : String
  selections : List Selection

/-- The fields and conditional fragments of a level, latest first, and the named fragments it has
expanded. -/
structure Level where
  fields : List FieldSelection
  fragments : List ConditionalFragment
  expanded : List String

def countSelection : Compiling Unit := do
  let visited ← get
  if visited + 1 > selectionLimit then throw .selectionLimitExceeded
  set (visited + 1)

def fragmentsOf (d : Document) : Members Fragment :=
  Members.ofList <| d.filterMap fun
    | .fragment f => some (f.name, f)
    | _ => none

namespace Level

def empty : Level := ⟨[], [], []⟩

def addField (l : Level) (f : FieldSelection) : Level :=
  { l with fields := f :: l.fields }

def addFragment (l : Level) (condition : String) (selections : List Selection) : Level :=
  { l with fragments := ⟨condition, selections⟩ :: l.fragments }

def markExpanded (l : Level) (name : String) : Level :=
  { l with expanded := name :: l.expanded }

def enter (inner : List Selection → Level → Compiling Level) (applies : String → Bool)
    (condition : Option String) (selections : List Selection) (l : Level) : Compiling Level :=
  match condition with
  | some name => if applies name then inner selections l else return l.addFragment name selections
  | none => inner selections l

/-- Enters one selection, given how the selections of a fragment are entered. A named fragment is
marked only after it is expanded, so one that spreads itself runs into the limit. -/
def add (fragments : Members Fragment) (applies : String → Bool)
    (inner : List Selection → Level → Compiling Level) (l : Level) (s : Selection) :
    Compiling Level := do
  countSelection
  match s with
  | .field responseName name _ _ selections => return l.addField ⟨responseName, name, selections⟩
  | .inline condition _ selections => enter inner applies condition selections l
  | .spread name _ =>
    match fragments.get? name with
    | none => throw (.unknownFragment name)
    | some f =>
      if name ∈ l.expanded then return l
      else return (← enter inner applies f.condition f.selections l).markExpanded name

def expand (fragments : Members Fragment) (applies : String → Bool) :
    Nat → List Selection → Level → Compiling Level
  | 0, _, _ => throw .recursionLimitExceeded
  | levels + 1, selections, l =>
    selections.foldlM (add fragments applies (expand fragments applies levels)) l

end Level

end FederatedMock
