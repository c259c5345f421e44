import FederatedMock.Format.Duration
import FederatedMock.Json.Printer
import FederatedMock.Net.SocketAddress
import FederatedMock.Schema.Problem
import FederatedMock.Url.Basic

namespace FederatedMock

structure GeneratorSettings where
  endpoint : Url
  model : String
  apiKeyVariable : String
  timeout : Duration

structure Configuration where
  listen : SocketAddress
  supergraph : Option String
  subgraphs : Members String
  generator : GeneratorSettings
  addTypename : Bool

inductive ConfigurationError where
  | cannotRead (path reason : String)
  | malformed
  | cannotReadApiKey (name reason : String)
  | invalidSubgraphSchema (service : String) (e : SchemaError)
  | invalidSupergraph

namespace GeneratorSettings

def default : GeneratorSettings where
  endpoint := ⟨"https", "", "", some (.domain "generativelanguage.googleapis.com"), none,
    .segments [""], none, none⟩
  model := "gemini-1.5-flash"
  apiKeyVariable := "GOOGLE_GENERATIVE_AI_API_KEY"
  timeout := .ofSeconds 60

def toJson (s : GeneratorSettings) : Json :=
  .object [("endpoint", .string s.endpoint.render), ("model", .string s.model),
    ("api_key_env", .string s.apiKeyVariable), ("timeout", .string s.timeout.render)]

end GeneratorSettings

namespace Configuration

def default : Configuration where
  listen := .v4 [127, 0, 0, 1] 4001
  supergraph := none
  subgraphs := []
  generator := .default
  addTypename := false

def toJson (c : Configuration) : Json :=
  .object [("listen", .string c.listen.render),
    ("supergraph", (c.supergraph.map .string).getD .null),
    ("subgraphs", .object (c.subgraphs.map fun (service, path) => (service, .string path))),
    ("generator", c.generator.toJson), ("add_typename", .boolean c.addTypename)]

end Configuration

namespace ConfigurationError

def message : ConfigurationError → String
  | .cannotRead path reason => s!"could not read {path}: {reason}"
  | .malformed => "could not deserialize configuration"
  | .cannotReadApiKey name reason =>
    s!"could not read the generator api key from environment variable {name}: {reason}"
  | .invalidSubgraphSchema service e => s!"invalid schema for subgraph {service}: {e.message}"
  | .invalidSupergraph => "could not extract subgraphs from the supergraph schema"

end ConfigurationError

end FederatedMock
