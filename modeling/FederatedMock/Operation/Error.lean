namespace FederatedMock

inductive OperationError where
  | syntaxError
  | missingOperation
  | unsupportedOperationKind (kind : String)
  | unknownField (typeName field : String)
  | unresolvedType (name : String)
  | missingSelectionSet (typeName field : String)
  | unknownFragment (name : String)
  | recursionLimitExceeded
  | selectionLimitExceeded
deriving DecidableEq, Repr

namespace OperationError

def code : OperationError → String
  | .syntaxError => "GRAPHQL_PARSE_FAILED"
  | .missingOperation => "GRAPHQL_UNKNOWN_OPERATION_NAME"
  | .unsupportedOperationKind _ => "GRAPHQL_VALIDATION_FAILED"
  | .unknownField _ _ => "GRAPHQL_VALIDATION_FAILED"
  | .unresolvedType _ => "GRAPHQL_VALIDATION_FAILED"
  | .missingSelectionSet _ _ => "GRAPHQL_VALIDATION_FAILED"
  | .unknownFragment _ => "GRAPHQL_VALIDATION_FAILED"
  | .recursionLimitExceeded => "RECURSION_LIMIT_EXCEEDED"
  | .selectionLimitExceeded => "SELECTION_LIMIT_EXCEEDED"

def message : OperationError → String
  | .syntaxError => "GraphQL parser error"
  | .missingOperation => "the document does not contain an operation"
  | .unsupportedOperationKind kind =>
    s!"the schema does not define a root type for {kind} operations"
  | .unknownField typeName field => s!"cannot query field '{field}' on type '{typeName}'"
  | .unresolvedType name => s!"type '{name}' cannot be resolved in the subgraph schema"
  | .missingSelectionSet typeName field =>
    s!"field '{field}' of composite type '{typeName}' must have a selection of subfields"
  | .unknownFragment name => s!"unknown fragment '{name}'"
  | .recursionLimitExceeded => "selection processing recursion limit exceeded"
  | .selectionLimitExceeded => "selection processing limit exceeded"

end OperationError

end FederatedMock
