import FederatedMock.Configuration.Basic
import FederatedMock.Text.Basic
import FederatedMock.Url.Parser
import FederatedMock.Yaml.Reader
import FederatedMock.Yaml.Basic

namespace FederatedMock

private def field {α : Type} (record : Members Yaml.Node) (name : String)
    (read : Yaml.Node → Option α) (default : α) : Option α :=
  match record.get? name with
  | some node => read node
  | none => some default

private def url? (node : Yaml.Node) : Option Url :=
  match node.text?.map Url.parse with
  | some (.ok u) => some u
  | _ => none

namespace GeneratorSettings

def ofNode? (node : Yaml.Node) : Option GeneratorSettings := do
  let r ← node.record? ["endpoint", "model", "api_key_env", "timeout"]
  return {
    endpoint := ← field r "endpoint" url? default.endpoint
    model := ← field r "model" Yaml.Node.text? default.model
    apiKeyVariable := ← field r "api_key_env" Yaml.Node.text? default.apiKeyVariable
    timeout := ← field r "timeout" (fun n => n.text?.bind Duration.parse?) default.timeout }

end GeneratorSettings

namespace Configuration

private def files? (node : Yaml.Node) : Option (Members String) := do
  let files ← (← node.dictionary?).mapM fun (service, path) => do return (service, ← path.text?)
  return Members.sorted files

def ofNode? (node : Yaml.Node) : Option Configuration := do
  let r ← node.record? ["listen", "supergraph", "subgraphs", "generator", "add_typename"]
  return {
    listen := ← field r "listen" (fun n => n.text?.bind SocketAddress.parse?) default.listen
    supergraph := ← field r "supergraph" Yaml.Node.optionalText? default.supergraph
    subgraphs := ← field r "subgraphs" files? default.subgraphs
    generator := ← field r "generator" GeneratorSettings.ofNode? default.generator
    addTypename := ← field r "add_typename" Yaml.Node.truth? default.addTypename }

def parse (text : String) : Except ConfigurationError Configuration :=
  if Text.isAllBlank text then .ok default
  else
    match (Yaml.Node.parse? text).bind ofNode? with
    | some c => .ok c
    | none => .error .malformed

end Configuration

end FederatedMock
