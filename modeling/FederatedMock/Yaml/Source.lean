import FederatedMock.Yaml.Basic

namespace FederatedMock.Yaml

structure Source where
  rest : List Char
  line : Nat
  column : Nat
  anchors : List (String × Node)

def isBreak (c : Char) : Bool := c == '\n'

def isBlankOrBreak (c : Char) : Bool := c == ' ' || c == '\t' || c == '\n'

def isFlowMark (c : Char) : Bool :=
  c == ',' || c == '[' || c == ']' || c == '{' || c == '}'

def endsWord : List Char → Bool
  | [] => true
  | c :: _ => isBlankOrBreak c

namespace Source

def unifyBreaks : List Char → List Char
  | '\r' :: '\n' :: rest => '\n' :: unifyBreaks rest
  | '\r' :: rest => '\n' :: unifyBreaks rest
  | c :: rest => c :: unifyBreaks rest
  | [] => []

def ofString (text : String) : Source := ⟨unifyBreaks text.toList, 0, 0, []⟩

def advance (s : Source) (n : Nat) : Source :=
  { s with rest := s.rest.drop n, column := s.column + n }

def skipWhile (s : Source) (p : Char → Bool) : Source :=
  let rest := s.rest.dropWhile p
  { s with rest, column := s.column + (s.rest.length - rest.length) }

def skipLine (s : Source) : Source :=
  s.skipWhile fun c => !isBreak c

def atNextLine (s : Source) (rest : List Char) : Source :=
  { s with rest, line := s.line + 1, column := 0 }

def isAtEnd (s : Source) : Bool := s.rest.isEmpty

def isIndicator (s : Source) (mark : Char) : Bool :=
  match s.rest with
  | c :: rest => c == mark && endsWord rest
  | [] => false

def isMarker (s : Source) (mark : Char) : Bool :=
  s.column == 0 && s.rest.take 3 == List.replicate 3 mark && endsWord (s.rest.drop 3)

def isAtDocumentMarker (s : Source) : Bool :=
  s.isMarker '-' || s.isMarker '.'

/-- Goes to the next token, over blanks, comments and line breaks. Tells as well whether a block may
begin there: it may if it might before, or if a line has ended. Where it may, tabs stay. -/
def toToken (inFlow : Bool) (s : Source) (fresh : Bool) : Nat → Source × Bool
  | 0 => (s, fresh)
  | fuel + 1 =>
    match s.rest with
    | ' ' :: _ => toToken inFlow (s.advance 1) fresh fuel
    | '\t' :: _ => if inFlow || !fresh then toToken inFlow (s.advance 1) fresh fuel else (s, fresh)
    | '\n' :: rest => toToken inFlow (s.atNextLine rest) (fresh || !inFlow) fuel
    | '#' :: _ => toToken inFlow s.skipLine fresh fuel
    | _ => (s, fresh)

end Source

end FederatedMock.Yaml
