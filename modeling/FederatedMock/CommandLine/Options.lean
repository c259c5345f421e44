import FederatedMock.Net.SocketAddress

namespace FederatedMock.CommandLine

inductive LogFormat where
  | text
  | json
deriving DecidableEq, Repr

structure Options where
  log : String
  logFormat : LogFormat
  config : Option String
  listen : Option SocketAddress
deriving DecidableEq, Repr

inductive UsageError where
  | unknownArgument
  | invalidValue
  | unreadableValue
  | unexpectedValue
  | conflict
deriving DecidableEq, Repr

def UsageError.message : UsageError → String
  | .unknownArgument => "unexpected argument found"
  | .invalidValue => "one of the values isn't valid for an argument"
  | .unreadableValue => "invalid value for one of the arguments"
  | .unexpectedValue => "unexpected value for an argument found"
  | .conflict =>
    "an argument cannot be used with one or more of the other specified arguments"

inductive Request where
  | run (o : Options)
  | help
  | version
  | refuse (e : UsageError)
deriving DecidableEq, Repr

inductive ValueOption where
  | log
  | logFormat
  | config
  | listen
deriving DecidableEq, Repr

structure Given where
  log : Option String
  logFormat : Option LogFormat
  config : Option String
  listen : Option SocketAddress

namespace Given

def empty : Given := ⟨none, none, none, none⟩

def has (g : Given) : ValueOption → Bool
  | .log => g.log.isSome
  | .logFormat => g.logFormat.isSome
  | .config => g.config.isSome
  | .listen => g.listen.isSome

def set (g : Given) (o : ValueOption) (value : String) : Except UsageError Given :=
  match o with
  | .log => .ok { g with log := some value }
  | .logFormat =>
    match value with
    | "text" => .ok { g with logFormat := some .text }
    | "json" => .ok { g with logFormat := some .json }
    | _ => .error .invalidValue
  | .config => if value.isEmpty then .error .invalidValue else .ok { g with config := some value }
  | .listen =>
    match SocketAddress.parse? value with
    | some address => .ok { g with listen := some address }
    | none => .error .unreadableValue

def setOnce (g : Given) (o : ValueOption) (value : String) : Except UsageError Given :=
  if g.has o then .error .conflict else g.set o value

def complete (g : Given) (log? config? : Option String) : Except UsageError Options := do
  let g ← match g.config, config? with
    | none, some path => g.set .config path
    | _, _ => .ok g
  return ⟨(g.log <|> log?).getD "info", g.logFormat.getD .text, g.config, g.listen⟩

end Given

inductive Argument where
  | escape
  | long (name : String) (value : Option String)
  | short (letters : List Char)
  | plain (text : String)

def Argument.ofString (s : String) : Argument :=
  match s.toList with
  | ['-', '-'] => .escape
  | '-' :: '-' :: rest =>
    let name := rest.takeWhile (· != '=')
    .long (String.ofList name) ((rest.drop name.length).tail?.map String.ofList)
  | '-' :: c :: rest => .short (c :: rest)
  | _ => .plain s

abbrev Waiting := Option (ValueOption × Option String)

def settle (g : Given) : Waiting → Except UsageError Given
  | none => .ok g
  | some (_, none) => .error .invalidValue
  | some (o, some value) => g.setOnce o value

inductive Step where
  | next (g : Given) (waiting : Waiting)
  | stop (r : Request)

private def orRefuse (r : Except UsageError Given) (f : Given → Step) : Step :=
  match r with
  | .ok g => f g
  | .error e => .stop (.refuse e)

private def takeValue (g : Given) (waiting : Waiting) (o : ValueOption) :
    Option String → Step
  | some value => orRefuse (settle g waiting) fun g =>
      orRefuse (g.setOnce o value) fun g => .next g none
  | none => orRefuse (settle g waiting) fun g => .next g (some (o, none))

private def takeFlag (g : Given) (waiting : Waiting) (r : Request) : Step :=
  orRefuse (settle g waiting) fun _ => .stop r

private def longFlag? : String → Option Request
  | "help" => some .help
  | "version" => some .version
  | _ => none

private def longOption? : String → Option ValueOption
  | "log" => some .log
  | "log-format" => some .logFormat
  | "config" => some .config
  | "listen" => some .listen
  | _ => none

private def takeLong (g : Given) (waiting : Waiting) (name : String) (value : Option String) :
    Step :=
  match longFlag? name, longOption? name with
  | some r, _ =>
    if value.isSome then .stop (.refuse .unexpectedValue) else takeFlag g waiting r
  | none, some o => takeValue g waiting o value
  | none, none => .stop (.refuse .unknownArgument)

private def takeShort (g : Given) (waiting : Waiting) : List Char → Step
  | 'h' :: _ => takeFlag g waiting .help
  | 'V' :: _ => takeFlag g waiting .version
  | 'c' :: [] => takeValue g waiting .config none
  | 'c' :: '=' :: value => takeValue g waiting .config (some (String.ofList value))
  | 'c' :: value => takeValue g waiting .config (some (String.ofList value))
  | _ => .stop (.refuse .unknownArgument)

private def step (g : Given) (waiting : Waiting) : Argument → Step
  | .escape => .next g waiting
  | .long name value => takeLong g waiting name value
  | .short letters => takeShort g waiting letters
  | .plain text =>
    match waiting with
    | some (o, none) => .next g (some (o, some text))
    | _ => .stop (.refuse .unknownArgument)

private def finish (log? config? : Option String) (g : Given) (waiting : Waiting) : Request :=
  match settle g waiting with
  | .error e => .refuse e
  | .ok g =>
    match g.complete log? config? with
    | .ok o => .run o
    | .error e => .refuse e

def readFrom (log? config? : Option String) (g : Given) (waiting : Waiting) :
    List String → Request
  | [] => finish log? config? g waiting
  | s :: rest =>
    match Argument.ofString s with
    | .escape => if rest.isEmpty then finish log? config? g waiting else .refuse .unknownArgument
    | a =>
      match step g waiting a with
      | .next g waiting => readFrom log? config? g waiting rest
      | .stop r => r

def read (log? config? : Option String) (arguments : List String) : Request :=
  readFrom log? config? .empty none arguments

end FederatedMock.CommandLine
