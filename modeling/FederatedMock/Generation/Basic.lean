import FederatedMock.Json.Reader
import FederatedMock.Text.Fence

namespace FederatedMock

abbrev Reply := Except String String

abbrev Generator (σ : Type) := String → StateM σ Reply

inductive GenerationError where
  | failed (message : String)
  | malformed (message : String)
deriving DecidableEq, Repr

def GenerationError.message : GenerationError → String
  | .failed message => "generator request failed: " ++ message
  | .malformed message => "generator output is not valid JSON: " ++ message

def parseGenerated (text : String) : Except String Json :=
  let bare := Text.stripFences text.toList
  match Json.parseChars bare with
  | .ok v => .ok v
  | .error f => .error (f.message bare)

def Reply.value : Reply → Except GenerationError Json
  | .ok text =>
    match parseGenerated text with
    | .ok v => .ok v
    | .error message => .error (.malformed message)
  | .error message => .error (.failed message)

def generate {σ : Type} (g : Generator σ) (prompt : String) :
    StateM σ (Except GenerationError Json) :=
  return Reply.value (← g prompt)

structure Script where
  replies : List Reply
  prompts : List String

namespace Script

def exhausted : Reply := .error "no more replies"

def generator : Generator Script := fun prompt => do
  let s ← get
  set (Script.mk (s.replies.drop 1) (s.prompts ++ [prompt]))
  return s.replies.headD exhausted

def takePrompts : StateM Script (List String) := do
  let s ← get
  set { s with prompts := [] }
  return s.prompts

end Script

end FederatedMock
