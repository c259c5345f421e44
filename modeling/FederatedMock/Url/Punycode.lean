namespace FederatedMock.Url.Punycode

def threshold (k bias : Nat) : Nat :=
  if k ≤ bias then 1 else if bias + 26 ≤ k then 26 else k - bias

def digitChar (d : Nat) : Char :=
  if d < 26 then Char.ofNat (d + 97) else Char.ofNat (d + 22)

def digitValue? (c : Char) : Option Nat :=
  if 'a' ≤ c ∧ c ≤ 'z' then some (c.toNat - 97)
  else if 'A' ≤ c ∧ c ≤ 'Z' then some (c.toNat - 65)
  else if c.isDigit then some (c.toNat - 22)
  else none

private def adaptLoop (delta k : Nat) : Nat :=
  if 455 < delta then adaptLoop (delta / 35) (k + 36) else k + 36 * delta / (delta + 38)
termination_by delta
decreasing_by exact Nat.div_lt_self (by omega) (by omega)

def adapt (delta count : Nat) (first : Bool) : Nat :=
  let halved := if first then delta / 700 else delta / 2
  adaptLoop (halved + halved / count) 0

private def encodeDigits : Nat → Nat → Nat → Nat → List Char
  | 0, _, _, _ => []
  | fuel + 1, q, k, bias =>
    let t := threshold k bias
    if q < t then [digitChar q]
    else digitChar (t + (q - t) % (36 - t)) :: encodeDigits fuel ((q - t) / (36 - t)) (k + 36) bias

structure Encoder where
  delta : Nat
  bias : Nat
  handled : Nat
  first : Bool
  output : List Char

private def encodePass (n : Nat) (e : Encoder) (c : Char) : Encoder :=
  if c.toNat < n then { e with delta := e.delta + 1 }
  else if c.toNat = n then
    { delta := 0
      bias := adapt e.delta (e.handled + 1) e.first
      handled := e.handled + 1
      first := false
      output := e.output ++ encodeDigits 16 e.delta 36 e.bias }
  else e

private def encodeLoop : List Nat → Nat → List Char → Encoder → Encoder
  | [], _, _, e => e
  | m :: rest, n, label, e =>
    let e := { e with delta := e.delta + (m - n) * (e.handled + 1) }
    let e := label.foldl (encodePass m) e
    encodeLoop rest (m + 1) label { e with delta := e.delta + 1 }

def encode (label : List Char) : List Char :=
  let basic := label.filter fun c => c.toNat < 128
  let others := ((label.map Char.toNat).filter (128 ≤ ·)).mergeSort.eraseDups
  let start : Encoder := ⟨0, 72, basic.length, true, []⟩
  basic ++ (if basic.isEmpty then [] else ['-']) ++ (encodeLoop others 128 label start).output

private def decodeDigits (value weight k bias : Nat) : List Char → Option (Nat × List Char)
  | [] => none
  | c :: rest => do
    let d ← digitValue? c
    let value := value + d * weight
    if value > 0x7FFFFFFF then none
    else
      let t := threshold k bias
      if d < t then some (value, rest)
      else decodeDigits value (weight * (36 - t)) (k + 36) bias rest

private def decodeLoop : Nat → List Char → Nat → Nat → Nat → Bool → List Char → Option (List Char)
  | _, [], _, _, _, _, out => some out
  | 0, _, _, _, _, _, _ => none
  | fuel + 1, input, n, i, bias, first, out => do
    let (delta, rest) ← decodeDigits 0 1 36 bias input
    let i := i + delta
    let count := out.length + 1
    let n := n + i / count
    let place := i % count
    if n > 0x10FFFF ∨ (0xD800 ≤ n ∧ n ≤ 0xDFFF) then none
    else
      let out := out.take place ++ Char.ofNat n :: out.drop place
      decodeLoop fuel rest n (place + 1) (adapt delta count first) false out

def decode? (code : List Char) : Option (List Char) :=
  let reversed := code.reverse
  let extended := (reversed.takeWhile (· != '-')).reverse
  let basic := ((reversed.dropWhile (· != '-')).drop 1).reverse
  decodeLoop extended.length extended 128 0 72 true basic

end FederatedMock.Url.Punycode
