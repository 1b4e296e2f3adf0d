import SqlStatements.Command.Arguments
import SqlStatements.Statement.Split

namespace SqlStatements.Command

/-- What a command writes, and how many statements or tokens that shows. -/
structure Written where
  count : Nat
  output : Text
deriving DecidableEq

section
variable (parse? : Text → Option Settings.Draft) (files : Files)

def readScript (o : Options) (path : Text) : Logged Error (Settings × Text) := do
  let script ← Logged.ofExcept ((files.text path).mapError (.script path))
  let s ← o.settings parse? files path script
  return (s, script)

def writeStatements (o : Options) (format : Format) (path : Text) : Logged Error Written := do
  let (s, script) ← readScript parse? files o path
  Logged.log (.splitStarted path)
  let statements ← (split s script).mapError .failure
  Logged.log (.statementsWritten statements.length path)
  return ⟨statements.length, statementReport statements format⟩

def writeTokens (o : Options) (format : Format) (path : Text) : Logged Error Written := do
  let (s, script) ← readScript parse? files o path
  let tokens ← Logged.ofExcept ((scan s script).mapError .failure)
  return ⟨tokens.length, tokenReport tokens format⟩

def Request.write (r : Request) : Logged Error Written :=
  match r.action with
  | .split => writeStatements parse? files r.options r.format r.path
  | .tokens => writeTokens parse? files r.options r.format r.path

structure Outcome where
  exit : Nat
  stdout : Text
  stderr : Text
deriving DecidableEq

def versionLine : Text := "sqlsplit 0.1.0\n".toList

def usageLine : Text := "Usage: sqlsplit [OPTIONS] <COMMAND>\n".toList

/-- The report of an error. That of a malformed document stops after the name of the file. -/
def Error.report (e : Error) : Text :=
  let line := ("Error: " ++ e.message).toList
  match e with
  | .malformedSettings _ => line
  | _ => line ++ ['\n']

def Invocation.outcome : Invocation → Outcome
  | .usage => ⟨2, [], usageLine⟩
  | .version => ⟨0, versionLine, []⟩
  | .run request =>
    match (request.write parse? files).result with
    | .ok written => ⟨0, written.output, []⟩
    | .error e => ⟨1, [], e.report⟩

end
end SqlStatements.Command
