namespace FederatedMock.Graphql

def isIndent (c : Char) : Bool :=
  c == ' ' || c == '\t'

def splitLines : List Char → List (List Char)
  | [] => [[]]
  | '\r' :: '\n' :: rest => [] :: splitLines rest
  | c :: rest =>
    if c = '\n' ∨ c = '\r' then [] :: splitLines rest
    else
      match splitLines rest with
      | line :: lines => (c :: line) :: lines
      | [] => [[c]]

def isBlankLine (line : List Char) : Bool :=
  line.all isIndent

def indentOf (line : List Char) : Nat :=
  (line.takeWhile isIndent).length

def commonIndent? (lines : List (List Char)) : Option Nat :=
  ((lines.filter fun line => !isBlankLine line).map indentOf).min?

def joinLines : List (List Char) → List Char
  | [] => []
  | [line] => line
  | line :: rest => line ++ '\n' :: joinLines rest

def blockStringValue (raw : List Char) : List Char :=
  match splitLines raw with
  | [] => []
  | first :: others =>
    let indent := (commonIndent? others).getD 0
    let lines := first :: others.map fun line => line.drop indent
    let lines := lines.dropWhile isBlankLine
    joinLines (lines.reverse.dropWhile isBlankLine).reverse

end FederatedMock.Graphql
