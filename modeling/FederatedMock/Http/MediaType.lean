namespace FederatedMock.Http

def isToken (c : Char) : Bool :=
  c.isAlphanum || "!#$%&'*+-.^_`|~".toList.contains c

def isQuotable (c : Char) : Bool :=
  32 ≤ c.toNat && c.toNat < 127

def afterQuoted? (cs : List Char) : Option (List Char) :=
  match cs with
  | [] => none
  | c :: cs =>
    if !isQuotable c then none
    else
      match cs.dropWhile fun c => isQuotable c && c != '"' with
      | '"' :: rest =>
        match rest.dropWhile (· == ' ') with
        | [] => some []
        | ';' :: rest => some rest
        | _ => none
      | _ => none

def afterBare? (cs : List Char) : Option (List Char) :=
  match cs.dropWhile isToken with
  | [] => some []
  | ';' :: rest => if cs.length = rest.length + 1 then none else some rest
  | _ => none

def afterParameter? (cs : List Char) : Option (List Char) :=
  match (cs.dropWhile isToken) with
  | '=' :: rest =>
    if cs.length = rest.length + 1 then none
    else
      match rest with
      | '"' :: rest => afterQuoted? rest
      | rest => afterBare? rest
  | _ => none

def areParameters : Nat → List Char → Bool
  | 0, _ => false
  | n + 1, cs =>
    match cs.dropWhile (· == ' ') with
    | [] => true
    | cs =>
      match afterParameter? cs with
      | some rest => areParameters n rest
      | none => false

structure MediaType where
  type : List Char
  subtype : List Char

namespace MediaType

def parse? (s : String) : Option MediaType :=
  let cs := s.toList
  match cs.dropWhile isToken with
  | '/' :: rest =>
    let type := cs.takeWhile isToken
    let subtype := rest.takeWhile isToken
    if type.isEmpty then none
    else
      match rest.dropWhile isToken with
      | [] => some ⟨type, subtype⟩
      | ';' :: more =>
        if !subtype.isEmpty && areParameters (more.length + 1) more then some ⟨type, subtype⟩
        else none
      | _ => none
  | _ => none

def isSpelled (name : String) (cs : List Char) : Bool :=
  cs.map Char.toLower == name.toList

/-- What stands before the last plus sign of a subtype, unless it begins with its only one. -/
def base (subtype : List Char) : List Char :=
  match subtype.reverse.dropWhile (· != '+') with
  | _ :: c :: rest => (c :: rest).reverse
  | _ => subtype

def suffix? (subtype : List Char) : Option (List Char) :=
  match subtype.reverse.dropWhile (· != '+') with
  | _ :: _ :: _ => some (subtype.reverse.takeWhile (· != '+')).reverse
  | _ => none

def isJson (t : MediaType) : Bool :=
  isSpelled "application" t.type &&
    (isSpelled "json" (base t.subtype) || (suffix? t.subtype).any (isSpelled "json"))

end MediaType

end FederatedMock.Http
