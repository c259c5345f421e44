import FederatedMock.CommandLine.Help
import FederatedMock.CommandLine.LogFilter
import FederatedMock.CommandLine.Options
import FederatedMock.Configuration.Loading
import FederatedMock.Coprocessor.Mocker
import FederatedMock.Generation.Service

namespace FederatedMock.CommandLine

structure Environment (m : Type → Type) where
  directory : String
  lookup : String → m (Option String)
  read : FileReader m
  canListen : SocketAddress → m Bool

structure Setup where
  mocker : Mocker
  service : Service
  listen : SocketAddress

inductive Outcome where
  | shown (text : String)
  | refused (e : UsageError)
  | failed (message : String)
  | ready (s : Setup)

variable {m : Type → Type} [Monad m]

private def saying {ε α : Type} (message : ε → String) (r : ExceptT ε m α) : ExceptT String m α :=
  ExceptT.mk do
    match ← r.run with
    | .ok a => return .ok a
    | .error e => return .error (message e)

def configuration (env : Environment m) (o : Options) : ExceptT String m Configuration := do
  let c ← match o.config with
    | none => pure Configuration.default
    | some path =>
      let path := Path.join env.directory path
      saying (fun _ => s!"could not load configuration {path}") (Configuration.load env.read path)
  return { c with listen := o.listen.getD c.listen }

def setUp (env : Environment m) (o : Options) : ExceptT String m Setup := do
  if !LogFilter.isValid o.log then throw "could not parse log configuration"
  let c ← configuration env o
  let registry ← saying ConfigurationError.message (c.registry env.read)
  let key ← saying ConfigurationError.message (c.generator.apiKey env.lookup)
  let service ← saying ServiceError.message (ExceptT.mk (pure (Service.ofSettings c.generator key)))
  if ← env.canListen c.listen then return ⟨⟨registry, c.addTypename⟩, service, c.listen⟩
  else throw s!"could not listen on {c.listen.render}"

def run (env : Environment m) (arguments : List String) : m Outcome := do
  let log? ← env.lookup logVariable
  let config? ← env.lookup configVariable
  match read log? config? arguments with
  | .help => return .shown (helpText log? config?)
  | .version => return .shown versionText
  | .refuse e => return .refused e
  | .run o =>
    match ← (setUp env o).run with
    | .ok s => return .ready s
    | .error message => return .failed message

structure Report where
  status : UInt8
  output : String
  errors : String
deriving DecidableEq, Repr

def Outcome.report? : Outcome → Option Report
  | .shown text => some ⟨0, text, ""⟩
  | .refused e => some ⟨2, "", s!"error: {e.message}\n"⟩
  | .failed message => some ⟨1, "", s!"Error: {message}\n"⟩
  | .ready _ => none

end FederatedMock.CommandLine
