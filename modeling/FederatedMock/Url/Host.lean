import FederatedMock.Url.Escape
import FederatedMock.Url.Punycode

namespace FederatedMock.Url

inductive UrlError where
  | relativeWithoutBase
  | relativeToOpaque
  | emptyHost
  | invalidPort
  | invalidDomain
  | invalidIpv4
  | invalidIpv6
  | invalidHostCharacter
deriving DecidableEq, Repr

def UrlError.message : UrlError → String
  | .relativeWithoutBase => "relative URL without a base"
  | .relativeToOpaque => "relative URL with a cannot-be-a-base base"
  | .emptyHost => "empty host"
  | .invalidPort => "invalid port number"
  | .invalidDomain => "invalid international domain name"
  | .invalidIpv4 => "invalid IPv4 address"
  | .invalidIpv6 => "invalid IPv6 address"
  | .invalidHostCharacter => "invalid domain character"

inductive Host where
  | domain (name : String)
  | ipv4 (address : Nat)
  | ipv6 (pieces : List Nat)
deriving DecidableEq, Repr

def isForbiddenInHost (c : Char) : Bool :=
  ['\x00', '\t', '\n', '\r', ' ', '#', '/', ':', '<', '>', '?', '@', '[', '\\', ']', '^',
    '|'].contains c

def isForbiddenInDomain (c : Char) : Bool :=
  isForbiddenInHost c || c.toNat < 32 || c == '%' || c.toNat == 127

private def isIgnored (n : Nat) : Bool :=
  n == 0xAD || n == 0x34F || n == 0x200B || n == 0x2060 || n == 0x2064 || n == 0xFEFF ||
    (0x180B ≤ n && n ≤ 0x180D) || n == 0x180F || (0xFE00 ≤ n && n ≤ 0xFE0F)

private def foldCase (n : Nat) : Nat :=
  if 0xC0 ≤ n ∧ n ≤ 0xDE ∧ n ≠ 0xD7 then n + 32
  else if (0x100 ≤ n ∧ n ≤ 0x137) ∨ (0x14A ≤ n ∧ n ≤ 0x177) then n + (n + 1) % 2
  else if (0x139 ≤ n ∧ n ≤ 0x148) ∨ (0x179 ≤ n ∧ n ≤ 0x17E) then n + n % 2
  else if n = 0x178 then 0xFF
  else if 0x391 ≤ n ∧ n ≤ 0x3A9 then n + 32
  else if 0x410 ≤ n ∧ n ≤ 0x42F then n + 32
  else if 0x400 ≤ n ∧ n ≤ 0x40F then n + 80
  else n

private def narrow (n : Nat) : Nat :=
  if 0xFF01 ≤ n ∧ n ≤ 0xFF5E then n - 0xFEE0
  else if n = 0x3002 ∨ n = 0xFF61 then 0x2E
  else n

private def mapChar (c : Char) : List Char :=
  if isIgnored c.toNat then [] else [(Char.ofNat (foldCase (narrow c.toNat))).toLower]

private def isDisallowed (n : Nat) : Bool :=
  (0x80 ≤ n && n ≤ 0xA0) || n == 0x1680 || (0x2000 ≤ n && n ≤ 0x206F) || n == 0x3000 ||
    (0xE000 ≤ n && n ≤ 0xF8FF) || (0xFFF0 ≤ n && n ≤ 0xFFFF) || n ≥ 0xE0000

private def isAsciiLabel (label : List Char) : Bool :=
  label.all fun c => c.toNat < 128

def splitOn (separator : Char) : List Char → List (List Char)
  | [] => [[]]
  | c :: rest =>
    match splitOn separator rest with
    | part :: parts => if c = separator then [] :: part :: parts else (c :: part) :: parts
    | [] => [[c]]

def labelToAscii? (label : List Char) : Option (List Char) :=
  match label with
  | 'x' :: 'n' :: '-' :: '-' :: code =>
    match Punycode.decode? code with
    | some decoded =>
      if isAsciiLabel decoded || !isAsciiLabel label then none
      else if decoded.any fun c => isDisallowed c.toNat && !(c.toNat < 128) then none
      else some label
    | none => none
  | label =>
    if isAsciiLabel label then some label
    else if label.any fun c => isDisallowed c.toNat then none
    else some ("xn--".toList ++ Punycode.encode label)

def domainToAscii? (cs : List Char) : Option (List Char) := do
  let labels ← (splitOn '.' (cs.flatMap mapChar)).mapM labelToAscii?
  let name := (labels.map String.ofList |> Text.join ".").toList
  if name.any isForbiddenInDomain then none else some name

private def radixDigits? (radix : Nat) (cs : List Char) : Option Nat :=
  cs.foldlM (fun n c =>
    let d :=
      if c.isDigit then some (c.toNat - 48)
      else if 'a' ≤ c ∧ c ≤ 'f' then some (c.toNat - 87)
      else if 'A' ≤ c ∧ c ≤ 'F' then some (c.toNat - 55)
      else none
    match d with
    | some d => if d < radix then some (n * radix + d) else none
    | none => none) 0

def ipv4Number? : List Char → Option Nat
  | [] => none
  | '0' :: x :: rest =>
    if x = 'x' ∨ x = 'X' then radixDigits? 16 rest else radixDigits? 8 (x :: rest)
  | cs => radixDigits? 10 cs

private def withoutFinalDot (parts : List (List Char)) : List (List Char) :=
  match parts.reverse with
  | [] :: rest => rest.reverse
  | _ => parts

def endsInNumber (name : List Char) : Bool :=
  let parts := splitOn '.' name
  match parts.reverse with
  | [[]] => false
  | [] :: last :: _ => isNumber last
  | last :: _ => isNumber last
  | [] => false
where
  isNumber (last : List Char) : Bool :=
    (!last.isEmpty && last.all Char.isDigit) || (ipv4Number? last).isSome

def ipv4? (name : List Char) : Option Nat := do
  let parts := withoutFinalDot (splitOn '.' name)
  if parts.length > 4 then none
  else
    let numbers ← parts.mapM ipv4Number?
    match numbers.reverse with
    | [] => none
    | last :: before =>
      let before := before.reverse
      if before.any (· > 255) ∨ last ≥ Nat.pow 256 (4 - before.length) then none
      else
        let shifted := before.zipIdx.map fun (n, i) => n * Nat.pow 256 (3 - i)
        some (last + shifted.foldl (· + ·) 0)

private def hexPiece? (cs : List Char) : Option Nat :=
  if cs.isEmpty || cs.length > 4 then none else radixDigits? 16 cs

def dottedPart? (cs : List Char) : Option Nat :=
  if cs.isEmpty || cs.length > 3 || (cs.length > 1 && cs.head? == some '0') then none
  else (radixDigits? 10 cs).bind fun n => if n ≤ 255 then some n else none

private def lastPieces? (cs : List Char) : Option (List Nat) :=
  if cs.contains '.' then do
    let parts ← (splitOn '.' cs).mapM dottedPart?
    match parts with
    | [a, b, c, d] => some [a * 256 + b, c * 256 + d]
    | _ => none
  else (hexPiece? cs).map ([·])

private def pieces? (parts : List (List Char)) (mayEndDotted : Bool) : Option (List Nat) :=
  match parts.reverse with
  | [] => some []
  | last :: before => do
    let front ← before.reverse.mapM hexPiece?
    let back ← if mayEndDotted then lastPieces? last else (hexPiece? last).map ([·])
    some (front ++ back)

private def splitDoubleColon : List Char → Option (List Char × List Char)
  | [] => none
  | ':' :: ':' :: rest => some ([], rest)
  | c :: rest => (splitDoubleColon rest).map fun (a, b) => (c :: a, b)

private def colonParts (cs : List Char) : List (List Char) :=
  if cs.isEmpty then [] else splitOn ':' cs

def ipv6? (cs : List Char) : Option (List Nat) := do
  match splitDoubleColon cs with
  | some (front, back) =>
    let left ← pieces? (colonParts front) false
    let right ← pieces? (colonParts back) true
    let missing := 8 - (left.length + right.length)
    if missing = 0 then none else some (left ++ List.replicate missing 0 ++ right)
  | none =>
    let all ← pieces? (colonParts cs) true
    if all.length = 8 then some all else none

private def zeroRun (pieces : List Nat) : Nat :=
  (pieces.takeWhile (· == 0)).length

private def longestZeroRun (pieces : List Nat) : Option (Nat × Nat) :=
  let runs := (List.range pieces.length).map fun i => (i, zeroRun (pieces.drop i))
  runs.foldl (fun best run =>
    if run.2 < 2 then best
    else match best with
      | some b => if b.2 < run.2 then some run else best
      | none => some run) none

private def hexPieces (pieces : List Nat) : String :=
  Text.join ":" (pieces.map fun n => String.ofList (Nat.toDigits 16 n))

def ipv6Text (pieces : List Nat) : String :=
  match longestZeroRun pieces with
  | some (place, length) =>
    hexPieces (pieces.take place) ++ "::" ++ hexPieces (pieces.drop (place + length))
  | none => hexPieces pieces

def ipv4Text (address : Nat) : String :=
  Text.join "." ([3, 2, 1, 0].map fun i => toString (address / Nat.pow 256 i % 256))

def Host.text : Host → String
  | .domain name => name
  | .ipv4 address => ipv4Text address
  | .ipv6 pieces => "[" ++ ipv6Text pieces ++ "]"

private def bracketed? : List Char → Option (Except UrlError Host)
  | '[' :: rest =>
    match rest.reverse with
    | ']' :: inner =>
      some (match ipv6? inner.reverse with
        | some pieces => .ok (.ipv6 pieces)
        | none => .error .invalidIpv6)
    | _ => some (.error .invalidIpv6)
  | _ => none

def Host.parse (cs : List Char) : Except UrlError Host :=
  match bracketed? cs with
  | some result => result
  | none =>
    match (unescape? cs).bind domainToAscii? with
    | none => .error .invalidDomain
    | some [] => .error .emptyHost
    | some name =>
      if endsInNumber name then
        match ipv4? name with
        | some address => .ok (.ipv4 address)
        | none => .error .invalidIpv4
      else .ok (.domain (String.ofList name))

def Host.parseOpaque (cs : List Char) : Except UrlError Host :=
  match bracketed? cs with
  | some result => result
  | none =>
    if cs.any isForbiddenInHost then .error .invalidHostCharacter
    else .ok (.domain (escape .control cs))

end FederatedMock.Url
