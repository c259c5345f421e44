import FederatedMock.Url.Host

namespace FederatedMock

inductive SocketAddress where
  | v4 (address : List Nat) (port : Nat)
  | v6 (pieces : List Nat) (scope : Nat) (port : Nat)
deriving DecidableEq, Repr

namespace SocketAddress

private def bounded? (bound : Nat) (cs : List Char) : Option Nat :=
  if cs.isEmpty || !cs.all Char.isDigit then none
  else
    let n := cs.foldl (fun n c => n * 10 + (c.toNat - 48)) 0
    if n < bound then some n else none

private def port? : List Char → Option Nat := bounded? 65536

private def dotted? (cs : List Char) : Option (List Nat) := do
  let parts ← (Url.splitOn '.' cs).mapM Url.dottedPart?
  if parts.length = 4 then some parts else none

private def scoped? (cs : List Char) : Option (List Nat × Nat) := do
  let pieces ← Url.ipv6? (cs.takeWhile (· != '%'))
  match cs.dropWhile (· != '%') with
  | [] => some (pieces, 0)
  | _ :: scope => (bounded? 0x100000000 scope).map fun n => (pieces, n)

def parse? (s : String) : Option SocketAddress :=
  match s.toList with
  | '[' :: rest =>
    match rest.dropWhile (· != ']') with
    | ']' :: ':' :: port => do
      let (pieces, scope) ← scoped? (rest.takeWhile (· != ']'))
      return .v6 pieces scope (← port? port)
    | _ => none
  | cs =>
    match cs.dropWhile (· != ':') with
    | ':' :: port => do return .v4 (← dotted? (cs.takeWhile (· != ':'))) (← port? port)
    | _ => none

private def dottedText (numbers : List Nat) : String :=
  Text.join "." (numbers.map toString)

private def piecesText (pieces : List Nat) : String :=
  match pieces with
  | [0, 0, 0, 0, 0, 0xFFFF, a, b] =>
    "::ffff:" ++ dottedText [a / 256, a % 256, b / 256, b % 256]
  | _ => Url.ipv6Text pieces

def render : SocketAddress → String
  | .v4 address port => dottedText address ++ ":" ++ toString port
  | .v6 pieces scope port =>
    "[" ++ piecesText pieces ++ (if scope = 0 then "" else "%" ++ toString scope) ++ "]:" ++
      toString port

end SocketAddress

end FederatedMock
