import FederatedMock.Decimal.Double

/-!
# The shortest decimal of a double

The shortest decimal that reads back as a given double, and of those the nearest one. On each grid
of one, two, up to seventeen significant digits, only the two neighbours of the value can lie in the
interval of reals that round to it, so those two are tested in exact arithmetic and the first grid
with a hit is taken.
-/

namespace FederatedMock

/-- `0.d₁d₂… * 10 ^ (exponent + 1)`: decimal digits and the exponent of the leading one. -/
structure Scientific where
  digits : List Char
  exponent : Int
deriving DecidableEq, Repr

namespace Double

structure Interval where
  low : Nat
  value : Nat
  high : Nat
  den : Nat
  closed : Bool

/-- A double is rounded to from up to half the gap on both sides; the gap below a power of two is
half as wide. The ends belong to it if its significand is even. -/
def interval (m : Magnitude) : Interval :=
  let below := if m.significand = unitBit ∧ m.exponent > -1074 then 1 else 2
  let closed := m.significand % 2 == 0
  match m.exponent - 2 with
  | .ofNat k =>
    let u := Nat.pow 2 k
    ⟨(4 * m.significand - below) * u, 4 * m.significand * u, (4 * m.significand + 2) * u, 1, closed⟩
  | .negSucc k =>
    ⟨4 * m.significand - below, 4 * m.significand, 4 * m.significand + 2, Nat.pow 2 (k + 1),
      closed⟩

private def compareScaled (rel : Nat → Nat → Bool) (n : Nat) (e : Int) (num den : Nat) : Bool :=
  match e with
  | .ofNat k => rel (n * Nat.pow 10 k * den) num
  | .negSucc k => rel (n * den) (num * Nat.pow 10 (k + 1))

def Interval.contains (i : Interval) (n : Nat) (e : Int) : Bool :=
  if i.closed then
    compareScaled (fun a b => b ≤ a) n e i.low i.den && compareScaled (· ≤ ·) n e i.high i.den
  else
    compareScaled (fun a b => b < a) n e i.low i.den && compareScaled (· < ·) n e i.high i.den

private def leadingExponent (num den : Nat) : Int :=
  let estimate := ((num.log2 : Int) - den.log2 + 1) * 30103 / 100000 + 1
  let step (e : Int) : Int := if compareScaled (· ≤ ·) 1 e num den then e else e - 1
  step (step (step estimate))

private def gridFloor (i : Interval) (e : Int) : Nat :=
  match e with
  | .ofNat k => i.value / (i.den * Nat.pow 10 k)
  | .negSucc k => i.value * Nat.pow 10 (k + 1) / i.den

private def nearerBelow (i : Interval) (n : Nat) (e : Int) : Bool :=
  if compareScaled (fun a b => a == b) (2 * n + 1) e (2 * i.value) i.den then n % 2 == 0
  else compareScaled (fun a b => b < a) (2 * n + 1) e (2 * i.value) i.den

private def onGrid? (i : Interval) (e : Int) : Option Nat :=
  let n := gridFloor i e
  match i.contains n e, i.contains (n + 1) e with
  | true, true => some (if nearerBelow i n e then n else n + 1)
  | true, false => some n
  | false, true => some (n + 1)
  | false, false => none

private def searchGrids (i : Interval) (leading : Int) (places : Nat) : Nat → Nat × Int
  | 0 => (gridFloor i (leading - places + 1), leading - places + 1)
  | tries + 1 =>
    match onGrid? i (leading - places + 1) with
    | some n => (n, leading - places + 1)
    | none => searchGrids i leading (places + 1) tries

def shortest (d : Double) : Scientific :=
  if d.isZero then ⟨['0'], 0⟩
  else
    let i := interval d.magnitude
    let (n, e) := searchGrids i (leadingExponent i.value i.den) 1 17
    let digits := Nat.toDigits 10 n
    let kept := (digits.reverse.dropWhile (· == '0')).reverse
    ⟨kept, e + digits.length - 1⟩

end Double

end FederatedMock
