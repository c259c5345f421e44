namespace FederatedMock

inductive SchemaProblem where
  -- Found while definitions and extensions are put together.
  | executableDefinition
  | repeatedSchema
  | repeatedType (name : String)
  | repeatedDirectiveDefinition (name : String)
  | repeatedMember (typeName member : String)
  | repeatedRoot (kind : String)
  | extensionOfOtherKind (name : String)
  -- Found in the types put together.
  | missingQueryRoot
  | rootNotObject (name : String)
  | rootUsedTwice (name : String)
  | undefinedType (name : String)
  | reservedName (name : String)
  | emptyType (name : String)
  | notInputType (name : String)
  | notOutputType (name : String)
  | repeatedArgumentDefinition (name : String)
  | notInterface (name : String)
  | implementsItself (name : String)
  | missingTransitiveInterface (typeName interface : String)
  | missingInterfaceField (typeName field : String)
  | unlikeInterfaceField (typeName field : String)
  | missingInterfaceArgument (typeName field argument : String)
  | unlikeInterfaceArgument (typeName field argument : String)
  | requiredExtraArgument (typeName field argument : String)
  | memberNotObject (name : String)
  | inputCycle (name : String)
  | nonNullOneOfField (typeName field : String)
  | defaultInOneOfField (typeName field : String)
  | directiveCycle (name : String)
  -- Found where directives are applied.
  | undefinedDirective (name : String)
  | repeatedDirective (name : String)
  | wrongLocation (directive location : String)
  | repeatedArgument (name : String)
  | undefinedArgument (directive argument : String)
  | missingArgument (directive argument : String)
  | wrongValue (type : String)
deriving DecidableEq, Repr

inductive SchemaError where
  | syntaxError
  | invalid (problems : List SchemaProblem)
deriving DecidableEq, Repr

namespace SchemaError

def maxListed : Nat := 5

def count : SchemaError → Nat
  | .syntaxError => 1
  | .invalid problems => problems.length

def others (e : SchemaError) : Nat :=
  e.count - maxListed

def message : SchemaError → String
  | .syntaxError => "GraphQL parser error"
  | .invalid _ => "GraphQL validation error"

end SchemaError

end FederatedMock
