import FederatedMock.Text.Basic

namespace FederatedMock

structure Duration where
  seconds : Nat
  nanoseconds : Nat
deriving DecidableEq, Repr

namespace Duration

def nanosPerSecond : Nat := 1000000000

def fits (n : Nat) : Bool := n < 0x10000000000000000

def zero : Duration := ⟨0, 0⟩

def ofSeconds (n : Nat) : Duration := ⟨n, 0⟩

inductive TimeUnit where
  | nanos (n : Nat)
  | seconds (n : Nat)

def unitNames : List (List String × TimeUnit) :=
  [(["nanos", "nsec", "ns"], .nanos 1),
    (["usec", "us", "µs"], .nanos 1000),
    (["millis", "msec", "ms"], .nanos 1000000),
    (["seconds", "second", "secs", "sec", "s"], .seconds 1),
    (["minutes", "minute", "mins", "min", "m"], .seconds 60),
    (["hours", "hour", "hrs", "hr", "h"], .seconds 3600),
    (["days", "day", "d"], .seconds 86400),
    (["weeks", "week", "wks", "wk", "w"], .seconds 604800),
    (["months", "month", "M"], .seconds 2630016),
    (["years", "year", "yrs", "yr", "y"], .seconds 31557600)]

def unit? (name : String) : Option TimeUnit :=
  (unitNames.find? fun u => u.1.contains name).map Prod.snd

def add? (d : Duration) (seconds nanoseconds : Nat) : Option Duration :=
  let nanos := d.nanoseconds + nanoseconds
  let total := d.seconds + seconds + nanos / nanosPerSecond
  if fits seconds && fits nanos && fits total then some ⟨total, nanos % nanosPerSecond⟩ else none

def addWhole? (d : Duration) (n : Nat) : TimeUnit → Option Duration
  | .nanos size => d.add? 0 (n * size)
  | .seconds size => d.add? (n * size) 0

def addFraction? (d : Duration) (numerator denominator : Nat) : TimeUnit → Option Duration
  | .nanos size => scaled size fun n => d.add? 0 n
  | .seconds size =>
    if size ≤ 60 then scaled (size * nanosPerSecond) fun n => d.add? 0 n
    else scaled size fun n => d.add? n 0
where
  scaled (size : Nat) (add : Nat → Option Duration) : Option Duration :=
    if fits (numerator * size) then add (numerator * size / denominator) else none

private def isDigitOrBlank (c : Char) : Bool := c.isDigit || Text.isBlank c

private def isUnitLetter (c : Char) : Bool := c.isAlpha || c == 'µ'

private def number (cs : List Char) : Nat × Nat :=
  let digits := cs.filter Char.isDigit
  (digits.foldl (fun n c => n * 10 + (c.toNat - 48)) 0, digits.length)

private def fraction? (cs : List Char) : Option (Option (Nat × Nat) × List Char) :=
  match cs with
  | '.' :: rest =>
    let (n, count) := number (rest.takeWhile isDigitOrBlank)
    if count = 0 || !fits n || !fits (Nat.pow 10 count) then none
    else some (some (n, Nat.pow 10 count), rest.dropWhile isDigitOrBlank)
  | _ => some (none, cs)

private def addTerm? (d : Duration) (cs : List Char) : Option (Duration × List Char) := do
  let (n, count) := number (cs.takeWhile isDigitOrBlank)
  if count = 0 || !fits n then none
  else
    let (fraction, rest) ← fraction? (cs.dropWhile isDigitOrBlank)
    let unit ← unit? (String.ofList (rest.takeWhile isUnitLetter))
    let rest := rest.dropWhile isUnitLetter
    let d ← d.addWhole? n unit
    match fraction with
    | some (n, denominator) => return (← d.addFraction? n denominator unit, rest)
    | none => return (d, rest)

private def addTerms? (d : Duration) : Nat → List Char → Option Duration
  | 0, _ => none
  | fuel + 1, cs =>
    match cs.dropWhile Text.isBlank with
    | [] => some d
    | c :: rest =>
      if c.isDigit then do
        let (d, rest) ← addTerm? d (c :: rest)
        addTerms? d fuel rest
      else none

def parse? (s : String) : Option Duration :=
  if s = "0" then some zero
  else if Text.isAllBlank s then none
  else addTerms? zero (s.length + 1) s.toList

private def plural (name : String) (n : Nat) : List String :=
  if n = 0 then [] else [toString n ++ name ++ (if n = 1 then "" else "s")]

private def item (name : String) (n : Nat) : List String :=
  if n = 0 then [] else [toString n ++ name]

def render (d : Duration) : String :=
  let inYear := d.seconds % 31557600
  let inMonth := inYear % 2630016
  let inDay := inMonth % 86400
  let items := plural "year" (d.seconds / 31557600) ++ plural "month" (inYear / 2630016) ++
    plural "day" (inMonth / 86400) ++ item "h" (inDay / 3600) ++ item "m" (inDay % 3600 / 60) ++
    item "s" (inDay % 60) ++ item "ms" (d.nanoseconds / 1000000) ++
    item "us" (d.nanoseconds / 1000 % 1000) ++ item "ns" (d.nanoseconds % 1000)
  if items.isEmpty then "0s" else Text.join " " items

end Duration

end FederatedMock
