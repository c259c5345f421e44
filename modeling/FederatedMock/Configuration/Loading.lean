import FederatedMock.Configuration.Reader
import FederatedMock.Registry
import FederatedMock.Schema.Supergraph
import FederatedMock.Url.Host

namespace FederatedMock

namespace Path

def isAbsolute (path : String) : Bool :=
  path.toList.head? == some '/'

def join (directory path : String) : String :=
  if isAbsolute path || directory.isEmpty then path
  else if directory.toList.getLast? == some '/' then directory ++ path
  else directory ++ "/" ++ path

private def isNoStep (part : List Char) : Bool :=
  part.isEmpty || part == ['.']

def parent (path : String) : String :=
  let steps := (Url.splitOn '/' path.toList).reverse.dropWhile isNoStep
  let front := ((steps.drop 1).dropWhile isNoStep).reverse
  if front.isEmpty && isAbsolute path then "/"
  else Text.join "/" (front.map String.ofList)

end Path

abbrev FileReader (m : Type → Type) := String → m (Except String String)

abbrev Loading (m : Type → Type) := ExceptT ConfigurationError m

variable {m : Type → Type} [Monad m]

def readFile (read : FileReader m) (path : String) : Loading m String := do
  match ← read path with
  | .ok text => return text
  | .error reason => throw (.cannotRead path reason)

namespace Configuration

def resolvePaths (c : Configuration) (directory : String) : Configuration :=
  { c with
    supergraph := c.supergraph.map (Path.join directory)
    subgraphs := c.subgraphs.map fun (service, path) => (service, Path.join directory path) }

def load (read : FileReader m) (path : String) : Loading m Configuration := do
  let c ← liftExcept (parse (← readFile read path))
  return c.resolvePaths (Path.parent path)
where
  liftExcept {α : Type} (r : Except ConfigurationError α) : Loading m α := ExceptT.mk (pure r)

def composedSubgraphs (c : Configuration) (read : FileReader m) : Loading m (Members Subgraph) := do
  match c.supergraph with
  | none => return []
  | some path =>
    match Supergraph.subgraphs? (← readFile read path) with
    | some subgraphs => return subgraphs
    | none => throw .invalidSupergraph

def ownSubgraphs (c : Configuration) (read : FileReader m) : Loading m (Members Subgraph) :=
  c.subgraphs.mapM fun (service, path) => do
    match Subgraph.parse (← readFile read path) with
    | .ok s => return (service, s)
    | .error e => throw (.invalidSubgraphSchema service e)

def registry (c : Configuration) (read : FileReader m) : Loading m Registry := do
  let composed ← c.composedSubgraphs read
  let own ← c.ownSubgraphs read
  return .ofList (composed ++ own)

end Configuration

def GeneratorSettings.apiKey (s : GeneratorSettings) (lookup : String → m (Option String)) :
    Loading m String := do
  match ← lookup s.apiKeyVariable with
  | some key => return key
  | none => throw (.cannotReadApiKey s.apiKeyVariable "environment variable not found")

end FederatedMock
