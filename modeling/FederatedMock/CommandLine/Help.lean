import FederatedMock.Text.Basic

namespace FederatedMock.CommandLine

def programName : String := "mocker"

def programVersion : String := "0.1.0"

def purpose : String :=
  "Router coprocessor answering subgraph requests with generated mock data"

def logVariable : String := "MOCKER_LOG"
def configVariable : String := "MOCKER_CONFIG_PATH"

def versionText : String := s!"{programName} {programVersion}\n"

structure HelpLine where
  short : Option Char
  long : String
  text : String

private def variableNote (name : String) (value : Option String) : String :=
  "[env: " ++ name ++ "=" ++ value.getD "" ++ "]"

def helpLines (log? config? : Option String) : List HelpLine :=
  [⟨none, "--log <LOG_LEVEL>",
      "Log level (off|error|warn|info|debug|trace) " ++ variableNote logVariable log? ++
        " [default: info]"⟩,
    ⟨none, "--log-format <LOG_FORMAT>",
      "Log output format [default: text] [possible values: text, json]"⟩,
    ⟨some 'c', "--config <CONFIG_PATH>",
      "Configuration location relative to the current directory " ++
        variableNote configVariable config?⟩,
    ⟨none, "--listen <LISTEN>", "Address to listen on, overriding the configuration"⟩,
    ⟨some 'h', "--help", "Print help"⟩,
    ⟨some 'V', "--version", "Print version"⟩]

private def HelpLine.render (width : Nat) (l : HelpLine) : String :=
  let front := match l.short with
    | some c => "  -" ++ String.singleton c ++ ", "
    | none => "      "
  front ++ l.long ++ "".pushn ' ' (width - l.long.length) ++ "  " ++ l.text ++ "\n"

def helpText (log? config? : Option String) : String :=
  let lines := helpLines log? config?
  let width := lines.foldl (fun w l => max w l.long.length) 0
  purpose ++ "\n\nUsage: \n\nOptions:\n" ++ Text.join "" (lines.map (HelpLine.render width))

end FederatedMock.CommandLine
