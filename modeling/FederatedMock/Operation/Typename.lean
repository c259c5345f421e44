import FederatedMock.Graphql.Parser
import FederatedMock.Graphql.Printer
import FederatedMock.Shape.Basic

namespace FederatedMock.Graphql

def typenameSelection : Selection :=
  .field none typenameKey [] [] []

def isReserved (name : String) : Bool :=
  name.toList.take 2 == ['_', '_']

def selectsReserved (selections : List Selection) : Bool :=
  selections.any fun
    | .field _ name _ _ _ => isReserved name
    | _ => false

def exportDirective : String := "export"

def isExported (directives : List Directive) : Bool :=
  directives.any fun d => d.name == exportDirective

def extend (present selections : List Selection) : List Selection :=
  if selectsReserved present then selections else selections ++ [typenameSelection]

namespace Selection

mutual

def addTypename : Selection → Selection
  | .field alias? name arguments directives selections =>
    if selections.isEmpty ∨ name = typenameKey then
      .field alias? name arguments directives selections
    else if isExported directives then
      -- The sets within an exported field are extended, only its own is not.
      .field alias? name arguments directives (addTypenames selections)
    else
      .field alias? name arguments directives (extend selections (addTypenames selections))
  | .inline condition directives selections =>
    .inline condition directives (extend selections (addTypenames selections))
  | .spread name directives => .spread name directives

def addTypenames : List Selection → List Selection
  | [] => []
  | s :: rest => s.addTypename :: addTypenames rest

end

end Selection

def Definition.addTypename : Definition → Definition
  | .operation o => .operation { o with selections := Selection.addTypenames o.selections }
  | .fragment f =>
    .fragment { f with selections := extend f.selections (Selection.addTypenames f.selections) }
  | d => d

def Document.addTypename (d : Document) : Document :=
  d.map Definition.addTypename

end FederatedMock.Graphql
