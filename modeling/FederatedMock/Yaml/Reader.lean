import FederatedMock.Yaml.Scalar

namespace FederatedMock.Yaml

namespace Reading

def fail {α : Type} : Reading α := fun _ => none

def toToken (inFlow fresh : Bool) : Reading Bool := fun s =>
  let (s, fresh) := s.toToken inFlow fresh (s.rest.length + 1)
  some (fresh, s)

def advance (n : Nat) : Reading Unit := modify fun s => s.advance n

def attempt {α : Type} (r : Reading (Option α)) : Reading (Option α) := fun s =>
  match r s with
  | some (some a, s') => some (some a, s')
  | some (none, _) => some (none, s)
  | none => none

private def isAnchorChar (c : Char) : Bool :=
  c.isAlphanum || c == '_' || c == '-'

def anchorName : Reading String := fun s => do
  let s := s.advance 1
  let name := s.rest.takeWhile isAnchorChar
  let s := s.advance name.length
  let ends := endsWord s.rest || s.rest.head?.any fun c => "?:,]\x7d%@\x60".toList.contains c
  if name.isEmpty || !ends then none
  else some (String.ofList name, s)

private def isTagChar (c : Char) : Bool :=
  c.isAlphanum || ";/?:@&=+$,.!~*'()[]_-%".toList.contains c

private def isHandleChar (c : Char) : Bool :=
  c.isAlphanum || c == '_' || c == '-'

private def tagAhead? (cs : List Char) : Option (Tag × Nat) :=
  match cs with
  | '<' :: rest =>
    let uri := rest.takeWhile isTagChar
    if rest.drop uri.length |>.head? |>.any (· == '>') then
      if uri.isEmpty then none else some (⟨"", String.ofList uri⟩, uri.length + 2)
    else none
  | _ =>
    let name := cs.takeWhile isHandleChar
    match cs.drop name.length with
    | '!' :: rest =>
      let suffix := rest.takeWhile isTagChar
      if suffix.isEmpty then none
      else
        some (⟨String.ofList ('!' :: (name ++ ['!'])), String.ofList suffix⟩,
          name.length + 1 + suffix.length)
    | _ =>
      let suffix := cs.takeWhile isTagChar
      if suffix.isEmpty then some (⟨"", "!"⟩, 0)
      else some (⟨"!", String.ofList suffix⟩, suffix.length)

def tag : Reading Tag := fun s => do
  let (tag, length) ← tagAhead? (s.rest.drop 1)
  let s := s.advance (length + 1)
  if endsWord s.rest then some (tag, s) else none

structure Properties where
  anchor : Option String
  tag : Option Tag

def Properties.isEmpty (p : Properties) : Bool :=
  p.anchor.isNone && p.tag.isNone

def properties (inFlow : Bool) (p : Properties) : Nat → Reading Properties
  | 0 => return p
  | n + 1 => do
    let s ← get
    match s.rest with
    | '&' :: _ =>
      if p.anchor.isSome then fail
      else
        let name ← anchorName
        let p := { p with anchor := some name }
        modify fun s => s.skipWhile fun c => c == ' ' || c == '\t'
        properties inFlow p n
    | '!' :: _ =>
      if p.tag.isSome then fail
      else
        let t ← tag
        let p := { p with tag := some t }
        modify fun s => s.skipWhile fun c => c == ' ' || c == '\t'
        properties inFlow p n
    | _ => return p

def withProperties (p : Properties) (node : Node) : Reading Node := do
  let node := node.withTag p.tag
  match p.anchor with
  | some name => modify fun s => { s with anchors := (name, node) :: s.anchors }
  | none => pure ()
  return node

def aliased : Reading Node := do
  let name ← anchorName
  match (← get).anchors.lookup name with
  | some node => return node
  | none => fail

/-- Whether a colon that ends a key comes next within brackets. A key that ends in a mark of its own
need not be set off from what follows the colon. -/
def isFlowColon (marked : Bool) (s : Source) : Bool :=
  match s.rest with
  | ':' :: rest => marked || endsWord rest || rest.head?.any isFlowMark
  | _ => false

def isMarked (s : Source) : Bool :=
  s.rest.head?.any fun c => c == '"' || c == '\'' || c == '[' || c == '{'

def isFlowGap (s : Source) : Bool :=
  s.rest.head?.any fun c => c == ',' || c == ']' || c == '}'

private def isReservedStart (c : Char) : Bool :=
  c == '%' || c == '@' || c == '\x60'

mutual

def flowNode : Nat → Reading Node
  | 0 => fail
  | fuel + 1 => do
    let p ← properties true ⟨none, none⟩ 2
    let _ ← toToken true false
    let s ← get
    if isFlowGap s || isFlowColon false s then
      if p.isEmpty then fail else withProperties p .empty
    else
      match s.rest with
      | '[' :: _ => do
        advance 1
        withProperties p (.sequence (← flowItems true fuel))
      | '{' :: _ => do
        advance 1
        withProperties p (.mapping (← flowEntries true fuel))
      | '"' :: _ => do withProperties p (← quotedScalar false)
      | '\'' :: _ => do withProperties p (← quotedScalar true)
      | '*' :: _ => if p.isEmpty then aliased else fail
      | c :: _ =>
        if isReservedStart c || s.isAtDocumentMarker || s.isIndicator '-' || s.isIndicator '?' then
          fail
        else do withProperties p (← plainScalar true 0)
      | [] => fail

def flowValue : Nat → Reading Node
  | 0 => fail
  | fuel + 1 => do
    advance 1
    let _ ← toToken true false
    if isFlowGap (← get) then return .empty else flowNode fuel

def flowPair : Nat → Reading (Node × Option Node)
  | 0 => fail
  | fuel + 1 => do
    let s ← get
    if s.isIndicator '?' then
      advance 1
      let _ ← toToken true false
      let s ← get
      let key ← if isFlowGap s || isFlowColon false s then pure .empty else flowNode fuel
      let _ ← toToken true false
      if isFlowColon (isMarked s) (← get) then return (key, some (← flowValue fuel))
      else return (key, some .empty)
    else if isFlowColon false s then return (.empty, some (← flowValue fuel))
    else
      let key ← flowNode fuel
      let after ← get
      let _ ← toToken true false
      let next ← get
      let adjacent := isMarked s && after.rest.length == next.rest.length
      if isFlowColon adjacent next then
        if next.line = s.line then return (key, some (← flowValue fuel)) else fail
      else return (key, none)

def flowItems (first : Bool) : Nat → Reading (List Node)
  | 0 => fail
  | fuel + 1 => do
    let _ ← toToken true false
    let s ← get
    match s.rest with
    | ']' :: _ => do
      advance 1
      return []
    | c :: _ => do
      if !first then
        if c == ',' then advance 1 else fail
      let _ ← toToken true false
      if (← get).rest.head? == some ']' then
        advance 1
        return []
      else
        let item := match ← flowPair fuel with
          | (key, some value) => Node.mapping [(key, value)]
          | (item, none) => item
        return item :: (← flowItems false fuel)
    | [] => fail

def flowEntries (first : Bool) : Nat → Reading (List (Node × Node))
  | 0 => fail
  | fuel + 1 => do
    let _ ← toToken true false
    let s ← get
    match s.rest with
    | '}' :: _ => do
      advance 1
      return []
    | c :: _ => do
      if !first then
        if c == ',' then advance 1 else fail
      let _ ← toToken true false
      if (← get).rest.head? == some '}' then
        advance 1
        return []
      else
        let (key, value) ← flowPair fuel
        return (key, value.getD .empty) :: (← flowEntries false fuel)
    | [] => fail

end

def isBlockOver (column : Int) (s : Source) : Bool :=
  s.isAtEnd || s.isAtDocumentMarker || (s.column : Int) < column

def inlineNode (indent : Int) (fuel : Nat) : Reading Node := do
  let s ← get
  match s.rest with
  | '[' :: _ => flowNode fuel
  | '{' :: _ => flowNode fuel
  | '"' :: _ => quotedScalar false
  | '\'' :: _ => quotedScalar true
  | '*' :: _ => aliased
  | '|' :: _ => blockScalar true indent
  | '>' :: _ => blockScalar false indent
  | c :: _ =>
    if isReservedStart c || isFlowMark c || c == '\t' || s.isIndicator '-' || s.isIndicator '?' ||
        s.isIndicator ':' then fail
    else plainScalar false indent
  | [] => fail

def keyOrNode (indent : Int) (fuel : Nat) : Reading (Node × Bool) := do
  let start ← get
  let p ← properties false ⟨none, none⟩ 2
  let s ← get
  let node ← if !p.isEmpty && s.isIndicator ':' then pure .empty else inlineNode indent fuel
  let node ← withProperties p node
  modify fun s => s.skipWhile fun c => c == ' ' || c == '\t'
  let s ← get
  return (node, s.isIndicator ':' && s.line == start.line)

mutual

/-- Reads a node within a block at a column; on a fresh place it may be a block itself. A sequence
that is the value of a key may stand at the column of the key. -/
def blockNode (indent : Int) (fresh isValue : Bool) : Nat → Reading Node
  | 0 => fail
  | fuel + 1 => do
    let fresh ← toToken false fresh
    let s ← get
    if isBlockOver indent s then return .empty
    else if (s.column : Int) = indent then
      if isValue && s.isIndicator '-' then return .sequence (← blockItems s.column true fuel)
      else if s.isIndicator '-' || s.isIndicator '?' then return .empty
      else
        let plain := attempt do
          let (node, isKey) ← keyOrNode indent fuel
          return if isKey then none else some node
        return (← plain).getD .empty
    else if s.isIndicator '-' then
      if fresh then return .sequence (← blockItems s.column false fuel) else fail
    else if s.isIndicator '?' then
      if fresh then return .mapping (← blockEntries s.column fuel) else fail
    else
      let p ← properties false ⟨none, none⟩ 2
      let after ← get
      let isLineOver := match after.rest with
        | [] => true
        | c :: _ => isBreak c || c == '#'
      if !p.isEmpty && isLineOver then withProperties p (← blockNode indent false isValue fuel)
      else
        set s
        let (node, isKey) ← keyOrNode indent fuel
        if !isKey then return node
        else if !fresh then fail
        else
          advance 1
          let value ← blockNode s.column false true fuel
          return .mapping ((node, value) :: (← moreEntries s.column fuel))
termination_by structural fuel => fuel

def blockEntries (column : Nat) : Nat → Reading (List (Node × Node))
  | 0 => fail
  | fuel + 1 => do
    let s ← get
    if s.isIndicator '?' then
      advance 1
      let key ← blockNode column true true fuel
      let _ ← toToken false true
      let s ← get
      if s.column = column && s.isIndicator ':' then
        advance 1
        let value ← blockNode column true true fuel
        return (key, value) :: (← moreEntries column fuel)
      else return (key, .empty) :: (← moreEntries column fuel)
    else
      let (key, isKey) ← keyOrNode column fuel
      if !isKey then fail
      else
        advance 1
        let value ← blockNode column false true fuel
        return (key, value) :: (← moreEntries column fuel)
termination_by structural fuel => fuel

def moreEntries (column : Nat) : Nat → Reading (List (Node × Node))
  | 0 => fail
  | fuel + 1 => do
    let _ ← toToken false false
    let s ← get
    if isBlockOver column s then return []
    else if s.column = column then blockEntries column fuel
    else fail
termination_by structural fuel => fuel

def blockItems (column : Nat) (atKey : Bool) : Nat → Reading (List Node)
  | 0 => fail
  | fuel + 1 => do
    advance 1
    let item ← blockNode column true false fuel
    let _ ← toToken false false
    let s ← get
    if isBlockOver column s then return [item]
    else if s.column = column && s.isIndicator '-' then
      return item :: (← blockItems column atKey fuel)
    else if s.column = column && atKey then return [item]
    else fail
termination_by structural fuel => fuel

end

def directives (any : Bool) : Nat → Reading Bool
  | 0 => return any
  | n + 1 => do
    let _ ← toToken false true
    let s ← get
    if s.column == 0 && s.rest.head? == some '%' then
      set s.skipLine
      directives true n
    else return any

def isOver : Nat → Reading Bool
  | 0 => return false
  | n + 1 => do
    let _ ← toToken false false
    let s ← get
    if s.isMarker '.' then
      advance 3
      isOver n
    else return s.isAtEnd

def onlyDocument : Reading Node := do
  let size := (← get).rest.length + 1
  let hasDirectives ← directives false size
  let s ← get
  if s.isAtEnd then fail
  else
    let node ← if s.isMarker '-' then do
        advance 3
        blockNode (-1) false false (4 * size)
      else if hasDirectives || s.isMarker '.' then fail
      else blockNode (-1) true false (4 * size)
    if ← isOver size then return node else fail

end Reading

def Node.parse? (text : String) : Option Node :=
  (Reading.onlyDocument (.ofString text)).map Prod.fst

end FederatedMock.Yaml
