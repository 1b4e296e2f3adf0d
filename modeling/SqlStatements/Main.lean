import SqlStatements.Command.Run
import SqlStatements.Settings.Document

open SqlStatements SqlStatements.Command

def readFile (path : Text) : IO (Except FileFault ByteArray) := do
  try
    return .ok (← IO.FS.readBinFile (String.ofList path))
  catch e =>
    match e with
    | .permissionDenied _ _ _ => return .error .denied
    | .inappropriateType _ _ _ => return .error .directory
    | _ => return .error .absent

def main (args : List String) : IO UInt32 := do
  let environment ← IO.getEnv "SQLSPLIT_SEPARATOR"
  let invocation := Invocation.ofArguments (args.map String.toList) (environment.map String.toList)
  let paths := match invocation with
    | .run request => request.paths
    | _ => []
  let contents ← paths.mapM fun path => return (path, ← readFile path)
  let files : Files := fun path =>
    ((contents.find? fun entry => entry.1 == path).map Prod.snd).getD (.error .absent)
  let outcome := invocation.outcome Settings.Draft.ofYaml? files
  (← IO.getStdout).putStr (String.ofList outcome.stdout)
  (← IO.getStderr).putStr (String.ofList outcome.stderr)
  return outcome.exit.toUInt32
