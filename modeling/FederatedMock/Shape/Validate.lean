import FederatedMock.Shape.Coercion
import FederatedMock.Text.Basic

/-!
# Validation of data

`Shape.apply` walks a value along a shape. It gives the coerced value and adds the issues it finds
to a report, which also holds the path of the value in the whole document. Where a value cannot be
used it reports one issue at its place and does not look inside; items that cannot be used become
null. `Shape.validate` gives the coerced document or its issues.
-/

namespace FederatedMock

inductive Step where
  | key (name : String)
  | index (n : Nat)
deriving DecidableEq, Repr

abbrev Path := List Step

def Step.text : Step → String
  | .key name => name
  | .index n => toString n

def Path.dotted (path : Path) : String :=
  Text.join "." (path.map Step.text)

structure Issue where
  path : Path
  message : String
deriving DecidableEq, Repr

structure Report where
  path : Path
  issues : List Issue

namespace Report

def empty : Report := ⟨[], []⟩

def add (r : Report) (message : String) : Report :=
  { r with issues := r.issues ++ [⟨r.path, message⟩] }

def enter (r : Report) (step : Step) : Report :=
  { r with path := r.path ++ [step] }

def leave (r : Report) : Report :=
  { r with path := r.path.dropLast }

end Report

namespace Shape

def applyEnumeration (members : List String) (value : Option Json) (r : Report) :
    Option Json × Report :=
  match value with
  | some (.string name) =>
    if name ∈ members then (some (.string name), r)
    else
      (none, r.add s!"Invalid enum value. Expected {Text.choices members}, received '{name}'")
  | some other => (none, r.add s!"Expected {Text.choices members}, received {other.typeName}")
  | none => (none, r.add requiredMessage)

def applyMismatch (expected : String) (value : Option Json) (r : Report) : Option Json × Report :=
  match value with
  | some v => (none, r.add (mismatch expected v))
  | none => (none, r.add requiredMessage)

def applyItems (f : Option Json → Report → Option Json × Report) :
    Nat → List Json → Report → List Json × Report
  | _, [], r => ([], r)
  | i, v :: rest, r =>
    let (out, r) := f (some v) (r.enter (.index i))
    let (outs, r) := applyItems f (i + 1) rest r.leave
    (out.getD .null :: outs, r)

/-- The variant that a value is read as: the one its type name says; without a type name, the first
whose type name is forced. -/
def selectVariant (choices : Variants) (members : Members Json) : Option String :=
  match members.get? typenameKey with
  | some (.string name) => if choices.contains name then some name else none
  | some _ => none
  | none => (choices.find? fun choice => forcesTypename choice.2).map Prod.fst

def reportDiscriminator (choices : Variants) (r : Report) : Report :=
  ((r.enter (.key typenameKey)).add
    s!"Invalid discriminator value. Expected {Text.choices choices.keys}").leave

mutual

def apply : Shape → Option Json → Report → Option Json × Report
  | .nullable inner, value, r =>
    match value with
    | none => (none, r)
    | some .null => (some .null, r)
    | some v => apply inner (some v) r
  | .scalar rule, value, r =>
    match rule.coerce value with
    | .ok v => (some v, r)
    | .error message => (none, r.add message)
  | .enumeration members, value, r => applyEnumeration members value r
  | .list item, value, r =>
    match value with
    | some (.array items) =>
      let (outs, r) := applyItems (apply item) 0 items r
      (some (.array outs), r)
    | other => applyMismatch "array" other r
  | .object fields, value, r =>
    match value with
    | some (.object members) =>
      let (out, r) := applyFields fields members r
      (some (.object out), r)
    | other => applyMismatch "object" other r
  | .variants choices, value, r =>
    match value with
    | some (.object members) =>
      match selectVariant choices members with
      | some name =>
        let (out, r) := applyVariant choices name members r
        (some (.object out), r)
      | none => (none, reportDiscriminator choices r)
    | other => applyMismatch "object" other r

def applyFields : List (String × Shape) → Members Json → Report → Members Json × Report
  | [], _, r => ([], r)
  | (key, shape) :: rest, members, r =>
    let (out, r) := apply shape (members.get? key) (r.enter (.key key))
    let (outs, r) := applyFields rest members r.leave
    (match out with | some v => (key, v) :: outs | none => outs, r)

def applyVariant : List (String × List (String × Shape)) → String → Members Json → Report →
    Members Json × Report
  | [], _, _, r => ([], r)
  | (n, fields) :: rest, name, members, r =>
    if n = name then applyFields fields members r else applyVariant rest name members r

end

/-- The coerced document, or the issues found in it. A document that comes back empty is null. -/
def validate (shape : Shape) (v : Json) : Except (List Issue) Json :=
  let (out, r) := shape.apply (some v) .empty
  if r.issues.isEmpty then .ok (out.getD .null) else .error r.issues

end Shape

def validationFailure (issues : List Issue) : String :=
  issues.foldl (fun text issue => s!"{text}\n{Path.dotted issue.path}: {issue.message}")
    s!"response validation failed with {issues.length} issue(s)"

end FederatedMock
