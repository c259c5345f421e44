import FederatedMock.Yaml.Source

namespace FederatedMock.Yaml

abbrev Reading := StateT Source Option

structure Gap where
  blanks : List Char
  breaks : Nat

namespace Gap

def none : Gap := ⟨[], 0⟩

def chars (g : Gap) : List Char :=
  match g.breaks with
  | 0 => g.blanks
  | 1 => [' ']
  | n + 2 => List.replicate (n + 1) '\n'

def read (column : Int) (s : Source) (g : Gap) : List Char → Option (Gap × Source)
  | '\n' :: rest => read column (s.atNextLine rest) ⟨[], g.breaks + 1⟩ rest
  | ' ' :: rest =>
    read column (s.advance 1) (if g.breaks = 0 then ⟨g.blanks ++ [' '], 0⟩ else g) rest
  | '\t' :: rest =>
    if g.breaks = 0 then read column (s.advance 1) ⟨g.blanks ++ ['\t'], 0⟩ rest
    else if (s.column : Int) < column then Option.none
    else read column (s.advance 1) g rest
  | _ => some (g, s)

end Gap

def plainWord (inFlow : Bool) : List Char → List Char
  | [] => []
  | c :: rest =>
    if isBlankOrBreak c || (inFlow && isFlowMark c) then []
    else if c == ':' && (endsWord rest || (inFlow && (rest.head?.any isFlowMark))) then []
    else c :: plainWord inFlow rest

def plainWords (inFlow : Bool) (column : Int) (text : List Char) (gap : Gap) :
    Nat → Source → Option (List Char × Source)
  | 0, _ => none
  | fuel + 1, s =>
    if s.isAtDocumentMarker || s.rest.head? == some '#' then some (text, s)
    else
      let word := plainWord inFlow s.rest
      let text := if word.isEmpty then text else text ++ gap.chars ++ word
      let gap := if word.isEmpty then gap else Gap.none
      let s := s.advance word.length
      match s.rest with
      | c :: _ =>
        if !isBlankOrBreak c then some (text, s)
        else
          match Gap.read column s gap s.rest with
          | none => none
          | some (gap, s) =>
            if !inFlow && (s.column : Int) < column then some (text, s)
            else plainWords inFlow column text gap fuel s
      | [] => some (text, s)

def plainScalar (inFlow : Bool) (indent : Int) : Reading Node := fun s => do
  let (text, s) ← plainWords inFlow (indent + 1) [] Gap.none (s.rest.length + 1) s
  return (.scalar (String.ofList text) true none, s)

private def hexValue? (c : Char) : Option Nat :=
  if c.isDigit then some (c.toNat - 48)
  else if 'a' ≤ c ∧ c ≤ 'f' then some (c.toNat - 87)
  else if 'A' ≤ c ∧ c ≤ 'F' then some (c.toNat - 55)
  else none

private def numbered? (digits : Nat) (cs : List Char) : Option (Char × Nat) := do
  let ds := cs.take digits
  if ds.length < digits then none
  else
    let n ← ds.foldlM (fun n d => (hexValue? d).map (n * 16 + ·)) 0
    if h : n.isValidChar then some (Char.ofNatAux n h, digits + 1) else none

def escaped? : List Char → Option (Char × Nat)
  | '0' :: _ => some ('\x00', 1)
  | 'a' :: _ => some ('\x07', 1)
  | 'b' :: _ => some ('\x08', 1)
  | 't' :: _ => some ('\t', 1)
  | '\t' :: _ => some ('\t', 1)
  | 'n' :: _ => some ('\n', 1)
  | 'v' :: _ => some ('\x0b', 1)
  | 'f' :: _ => some ('\x0c', 1)
  | 'r' :: _ => some ('\r', 1)
  | 'e' :: _ => some ('\x1b', 1)
  | ' ' :: _ => some (' ', 1)
  | '"' :: _ => some ('"', 1)
  | '\'' :: _ => some ('\'', 1)
  | '\\' :: _ => some ('\\', 1)
  | 'N' :: _ => some ('\u0085', 1)
  | '_' :: _ => some ('\u00A0', 1)
  | 'L' :: _ => some ('\u2028', 1)
  | 'P' :: _ => some ('\u2029', 1)
  | 'x' :: rest => numbered? 2 rest
  | 'u' :: rest => numbered? 4 rest
  | 'U' :: rest => numbered? 8 rest
  | _ => none

inductive QuotedPart where
  | closing
  | character (c : Char) (length : Nat)
  | joinedLine
  | gap

def quotedPart? (single : Bool) : List Char → Option QuotedPart
  | [] => none
  | c :: rest =>
    if isBlankOrBreak c then some .gap
    else if single then
      if c != '\'' then some (.character c 1)
      else if rest.head? == some '\'' then some (.character c 2)
      else some .closing
    else if c == '"' then some .closing
    else if c == '\\' then
      if rest.head? == some '\n' then some .joinedLine
      else (escaped? rest).map fun (c, length) => .character c (length + 1)
    else some (.character c 1)

/-- Reads what stands in quotes, the closing one included. A line that ends in a backslash goes on
with the next one; only the line breaks after its own count. -/
def quotedText (single : Bool) (text : List Char) : Nat → Source → Option (List Char × Source)
  | 0, _ => none
  | fuel + 1, s =>
    if s.isAtDocumentMarker then none
    else
      match quotedPart? single s.rest with
      | none => none
      | some .closing => some (text, s.advance 1)
      | some (.character c length) =>
        quotedText single (text ++ [c]) fuel (s.advance length)
      | some .joinedLine =>
        match Gap.read 0 s ⟨[], 0⟩ (s.rest.drop 1) with
        | none => none
        | some (gap, s) => quotedText single (text ++ List.replicate (gap.breaks - 1) '\n') fuel s
      | some .gap =>
        match Gap.read 0 s ⟨[], 0⟩ s.rest with
        | none => none
        | some (gap, s) => quotedText single (text ++ gap.chars) fuel s

def quotedScalar (single : Bool) : Reading Node := fun s => do
  let (text, s) ← quotedText single [] (s.rest.length + 1) (s.advance 1)
  return (.scalar (String.ofList text) false none, s)

inductive Chomping where
  | clip
  | strip
  | keep
deriving DecidableEq, Repr

structure BlockHeader where
  chomping : Chomping
  indent : Option Nat

private def chomping? : Char → Option Chomping
  | '+' => some .keep
  | '-' => some .strip
  | _ => none

private def indentSign? (c : Char) : Option Nat :=
  if c.isDigit && c != '0' then some (c.toNat - 48) else none

def blockHeader? (cs : List Char) : Option (BlockHeader × Nat) :=
  match cs with
  | a :: b :: _ =>
    match chomping? a, indentSign? a, chomping? b, indentSign? b with
    | some chomping, _, _, some indent => some (⟨chomping, some indent⟩, 2)
    | some chomping, _, _, none => if b == '0' then none else some (⟨chomping, none⟩, 1)
    | none, some indent, some chomping, _ => some (⟨chomping, some indent⟩, 2)
    | none, some indent, none, _ => some (⟨.clip, some indent⟩, 1)
    | none, none, _, _ => if a == '0' then none else some (⟨.clip, none⟩, 0)
  | [a] =>
    match chomping? a, indentSign? a with
    | some chomping, _ => some (⟨chomping, none⟩, 1)
    | none, some indent => some (⟨.clip, some indent⟩, 1)
    | none, none => if a == '0' then none else some (⟨.clip, none⟩, 0)
  | [] => some (⟨.clip, none⟩, 0)

def blockBreaks (indent : Option Nat) (s : Source) (breaks widest : Nat) :
    List Char → Option (Nat × Nat × Source)
  | ' ' :: rest =>
    if indent.all (s.column < ·) then
      blockBreaks indent (s.advance 1) breaks (max widest (s.column + 1)) rest
    else some (breaks, widest, s)
  | '\n' :: rest => blockBreaks indent (s.atNextLine rest) (breaks + 1) widest rest
  | '\t' :: _ => if indent.all (s.column < ·) then none else some (breaks, widest, s)
  | _ => some (breaks, widest, s)

/-- The lines of a block read so far: the text without its last line break, the line breaks to come,
and whether the last line began with a blank. -/
structure BlockText where
  text : List Char
  breaks : Nat
  spaced : Bool

def BlockText.add (literal : Bool) (b : BlockText) (first : Bool) (line : List Char) : BlockText :=
  let spaced := line.head?.any fun c => c == ' ' || c == '\t'
  let gap :=
    if first then List.replicate b.breaks '\n'
    else if !literal && !b.spaced && !spaced then
      if b.breaks = 1 then [' '] else List.replicate (b.breaks - 1) '\n'
    else List.replicate b.breaks '\n'
  ⟨b.text ++ gap ++ line, 0, spaced⟩

def blockLines (literal : Bool) (indent : Nat) (first : Bool) (b : BlockText) :
    Nat → Source → Option (BlockText × Bool × Source)
  | 0, _ => none
  | fuel + 1, s =>
    if s.column != indent || s.isAtEnd then some (b, first, s)
    else
      let line := s.rest.takeWhile fun c => !isBreak c
      let b := b.add literal first line
      match s.rest.drop line.length with
      | [] => some (b, false, s.skipLine)
      | _ :: rest =>
        match blockBreaks (some indent) (s.atNextLine rest) 1 0 rest with
        | none => none
        | some (breaks, _, s) => blockLines literal indent false { b with breaks } fuel s

def blockScalar (literal : Bool) (outer : Int) : Reading Node := fun s => do
  let s := s.advance 1
  let (header, signs) ← blockHeader? s.rest
  let s := (s.advance signs).skipWhile fun c => c == ' ' || c == '\t'
  let s := if s.rest.head? == some '#' then s.skipLine else s
  let s ← match s.rest with
    | [] => some s
    | '\n' :: rest => some (s.atNextLine rest)
    | _ => none
  let stated := header.indent.map fun n => outer.toNat + n
  let (breaks, widest, s) ← blockBreaks stated s 0 0 s.rest
  let indent := stated.getD (max widest (max (outer + 1).toNat 1))
  let (b, isEmpty, s) ← blockLines literal indent true ⟨[], breaks, false⟩ (s.rest.length + 1) s
  let ends := match header.chomping with
    | .strip => 0
    | .clip => if isEmpty then 0 else min b.breaks 1
    | .keep => b.breaks
  return (.scalar (String.ofList (b.text ++ List.replicate ends '\n')) false none, s)

end FederatedMock.Yaml
