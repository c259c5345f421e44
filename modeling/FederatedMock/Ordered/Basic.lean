namespace FederatedMock

abbrev Members (α : Type) := List (String × α)

namespace Members

variable {α : Type}

def get? (key : String) : Members α → Option α
  | [] => none
  | (k, v) :: rest => if k = key then some v else get? key rest

def contains (key : String) (members : Members α) : Bool :=
  (get? key members).isSome

def insert (key : String) (value : α) : Members α → Members α
  | [] => [(key, value)]
  | (k, v) :: rest => if k = key then (k, value) :: rest else (k, v) :: insert key value rest

def insertIfNew (key : String) (value : α) (members : Members α) : Members α :=
  if contains key members then members else members ++ [(key, value)]

def insertAll (members more : Members α) : Members α :=
  more.foldl (fun acc kv => insert kv.1 kv.2 acc) members

def insertAllIfNew (members more : Members α) : Members α :=
  more.foldl (fun acc kv => insertIfNew kv.1 kv.2 acc) members

def ofList (pairs : List (String × α)) : Members α :=
  insertAll [] pairs

def erase (key : String) : Members α → Members α
  | [] => []
  | (k, v) :: rest => if k = key then rest else (k, v) :: erase key rest

def keys (members : Members α) : List String :=
  members.map Prod.fst

def sorted (members : Members α) : Members α :=
  members.mergeSort fun a b => !decide (b.1 < a.1)

end Members

namespace Names

def insert (names : List String) (name : String) : List String :=
  if name ∈ names then names else names ++ [name]

def addAll (names more : List String) : List String :=
  more.foldl insert names

def ofList (names : List String) : List String :=
  addAll [] names

def sorted (names : List String) : List String :=
  names.mergeSort fun a b => !decide (b < a)

end Names

end FederatedMock
