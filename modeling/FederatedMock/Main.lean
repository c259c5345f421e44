import FederatedMock.CommandLine.Run

open FederatedMock CommandLine

def readSystemFile : FileReader IO := fun path => do
  try return .ok (← IO.FS.readFile path)
  catch e => return .error (toString e)

/-- The surroundings of the process. It has no network, so there is no address to listen on. -/
def systemEnvironment : IO (Environment IO) := do
  return {
    directory := (← IO.currentDir).toString
    lookup := fun name => IO.getEnv name
    read := readSystemFile
    canListen := fun _ => pure false }

def main (arguments : List String) : IO UInt32 := do
  match (← run (← systemEnvironment) arguments).report? with
  | some r =>
    IO.print r.output
    IO.eprint r.errors
    return r.status.toUInt32
  | none => return 0
