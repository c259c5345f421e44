import FederatedMock.Json.Token

namespace FederatedMock.Json

/-- A list or an object that is still open. The items of a list are held in reverse; an object holds
the key whose value is being read. -/
inductive Frame where
  | list (reversed : List Json)
  | object (members : Members Json) (key : String)

inductive Expecting where
  | value
  | firstItem
  | firstKey
  | nextKey
  | colon (key : String)
  | separator (done : Json)

structure Reader where
  stack : List Frame
  members : Members Json
  expecting : Expecting

def maxOpen : Nat := 127

private def Reader.push (r : Reader) (frame : Frame) : List Frame :=
  frame :: r.stack

private def Reader.complete (r : Reader) (v : Json) : Reader :=
  { r with expecting := .separator v }

private def Reader.opens (r : Reader) (start : Nat) (object : Bool) : Except Failure Reader :=
  if r.stack.length ≥ maxOpen then .error ⟨.recursionLimit, start + 1⟩
  else if object then .ok ⟨r.push (.object [] ""), [], .firstKey⟩
  else .ok ⟨r.push (.list []), [], .firstItem⟩

private def Reader.value (r : Reader) (t : Token) : Except Failure Reader :=
  match t.lexeme with
  | .scalar v => .ok (r.complete v)
  | .text s => .ok (r.complete (.string s))
  | .openList => r.opens t.start false
  | .openObject => r.opens t.start true
  | .broken f => .error f
  | .brokenText f => .error f
  | _ => .error ⟨.expectedValue, t.start + 1⟩

private def Reader.key (r : Reader) (t : Token) : Except Failure Reader :=
  match t.lexeme with
  | .text s => .ok { r with expecting := .colon s }
  | .brokenText f => .error f
  | _ => .error ⟨.keyMustBeString, t.start + 1⟩

private def Reader.separated (r : Reader) (done : Json) (t : Token) : Except Failure Reader :=
  match r.stack with
  | [] => .error ⟨.trailingCharacters, t.start + 1⟩
  | .list items :: outer =>
    match t.lexeme with
    | .comma => .ok ⟨.list (done :: items) :: outer, [], .value⟩
    | .closeList => .ok ⟨outer, [], .separator (.array (done :: items).reverse)⟩
    | _ => .error ⟨.expectedListCommaOrEnd, t.start + 1⟩
  | .object members key :: outer =>
    let members := members.insert key done
    match t.lexeme with
    | .comma => .ok ⟨.object members "" :: outer, [], .nextKey⟩
    | .closeObject => .ok ⟨outer, [], .separator (.object members)⟩
    | _ => .error ⟨.expectedObjectCommaOrEnd, t.start + 1⟩

def Reader.step (r : Reader) (t : Token) : Except Failure Reader :=
  match r.expecting with
  | .value =>
    match t.lexeme, r.stack with
    | .closeList, .list _ :: _ => .error ⟨.trailingComma, t.start + 1⟩
    | _, _ => r.value t
  | .firstItem =>
    match t.lexeme, r.stack with
    | .closeList, _ :: outer => .ok ⟨outer, [], .separator (.array [])⟩
    | _, _ => r.value t
  | .firstKey =>
    match t.lexeme, r.stack with
    | .closeObject, _ :: outer => .ok ⟨outer, [], .separator (.object [])⟩
    | _, _ => r.key t
  | .nextKey =>
    match t.lexeme with
    | .closeObject => .error ⟨.trailingComma, t.start + 1⟩
    | _ => r.key t
  | .colon key =>
    match t.lexeme, r.stack with
    | .colon, .object members _ :: outer => .ok ⟨.object members key :: outer, [], .value⟩
    | _, _ => .error ⟨.expectedColon, t.start + 1⟩
  | .separator done => r.separated done t

def Reader.finish (r : Reader) (size : Nat) : Except Failure Json :=
  match r.expecting, r.stack with
  | .separator done, [] => .ok done
  | .separator _, .list _ :: _ => .error ⟨.eofInList, size⟩
  | .separator _, .object _ _ :: _ => .error ⟨.eofInObject, size⟩
  | .firstItem, _ => .error ⟨.eofInList, size⟩
  | .firstKey, _ => .error ⟨.eofInObject, size⟩
  | .colon _, _ => .error ⟨.eofInObject, size⟩
  | .value, _ => .error ⟨.eofInValue, size⟩
  | .nextKey, _ => .error ⟨.eofInValue, size⟩

def readTokens (size : Nat) : Reader → List Token → Except Failure Json
  | r, [] => r.finish size
  | r, t :: rest =>
    match r.step t with
    | .ok r => readTokens size r rest
    | .error f => .error f

def byteLength (cs : List Char) : Nat :=
  cs.foldl (fun n c => n + c.utf8Size) 0

def parseChars (cs : List Char) : Except Failure Json :=
  readTokens (byteLength cs) ⟨[], [], .value⟩ (tokens cs)

def parse (s : String) : Except Failure Json :=
  parseChars s.toList

def Fault.message : Fault → String
  | .eofInValue => "EOF while parsing a value"
  | .eofInList => "EOF while parsing a list"
  | .eofInObject => "EOF while parsing an object"
  | .eofInString => "EOF while parsing a string"
  | .expectedValue => "expected value"
  | .expectedIdent => "expected ident"
  | .expectedColon => "expected `:`"
  | .expectedListCommaOrEnd => "expected `,` or `]`"
  | .expectedObjectCommaOrEnd => "expected `,` or `\x7d`"
  | .invalidEscape => "invalid escape"
  | .invalidNumber => "invalid number"
  | .numberOutOfRange => "number out of range"
  | .controlCharacter => "control character (\\u0000-\\u001F) found while parsing a string"
  | .keyMustBeString => "key must be a string"
  | .loneLeadingSurrogate => "lone leading surrogate in hex escape"
  | .unexpectedEndOfHexEscape => "unexpected end of hex escape"
  | .trailingComma => "trailing comma"
  | .trailingCharacters => "trailing characters"
  | .recursionLimit => "recursion limit exceeded"

def position (offset : Nat) (line column : Nat) : List Char → Nat × Nat
  | [] => (line, column)
  | c :: rest =>
    if offset = 0 then (line, column)
    else if c = '\n' then position (offset - 1) (line + 1) 0 rest
    else if c.utf8Size ≤ offset then position (offset - c.utf8Size) line (column + c.utf8Size) rest
    else (line, column + offset)

def Failure.message (text : List Char) (f : Failure) : String :=
  let (line, column) := position f.offset 1 0 text
  s!"{f.fault.message} at line {line} column {column}"

end FederatedMock.Json
