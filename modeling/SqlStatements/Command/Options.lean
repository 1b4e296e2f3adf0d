import SqlStatements.Command.Files
import SqlStatements.Failure
import SqlStatements.Separator
import SqlStatements.Settings.Draft

namespace SqlStatements.Command

/-- What may be said about the delimiters of a script on the command line. -/
structure Options where
  settingsFile : Option Text
  separator : Option Text
  lineComment : Option Text
  blockOpen : Option Text
  blockClose : Option Text
  autoSeparator : Bool
deriving DecidableEq

inductive Error where
  | script (path : Text) (fault : FileFault)
  | settingsFile (path : Text) (fault : FileFault)
  | malformedSettings (path : Text)
  | invalidSettings (path : Text) (cause : Settings.Error)
  | invalidDelimiters (cause : Settings.Error)
  | failure (cause : Failure)
deriving DecidableEq

def Error.message : Error → String
  | .script path fault =>
    "Error reading script " ++ String.ofList path ++ ": " ++ fault.message path
  | .settingsFile path fault =>
    "Error reading " ++ String.ofList path ++ " to string.: " ++ fault.message path
  | .malformedSettings path => "Error parsing YAML file: " ++ String.ofList path
  | .invalidSettings path cause =>
    "Invalid settings in " ++ String.ofList path ++ ": " ++ cause.message
  | .invalidDelimiters cause => "Invalid delimiter settings: " ++ cause.message
  | .failure cause => cause.message

/-- The settings in a file, of which `parse?` reads the fields that its text sets. They must be
valid on their own. -/
def readSettings (parse? : Text → Option Settings.Draft) (files : Files) (path : Text) :
    Except Error Settings :=
  match files.text path with
  | .error fault => .error (.settingsFile path fault)
  | .ok document =>
    match parse? document with
    | none => .error (.malformedSettings path)
    | some fields => (fields.filledFrom .standard).checked.mapError (.invalidSettings path)

namespace Options

/-- The draft that holds the settings below, the path of the script and what the
options say. -/
def draft (o : Options) (base : Settings) (path : Text) : Settings.Draft :=
  (((((Settings.Draft.ofSettings base).set .resource path).set? .separator o.separator).set?
    .lineComment o.lineComment).set? .blockOpen o.blockOpen).set? .blockClose o.blockClose

def base (o : Options) (parse? : Text → Option Settings.Draft) (files : Files) :
    Except Error Settings :=
  match o.settingsFile with
  | some file => readSettings parse? files file
  | none => .ok .standard

def settings (o : Options) (parse? : Text → Option Settings.Draft) (files : Files)
    (path script : Text) : Logged Error Settings := do
  let base ← Logged.ofExcept (o.base parse? files)
  let s ← Logged.ofExcept ((o.draft base path).build.mapError .invalidDelimiters)
  if o.autoSeparator then
    let separator ← Separator.resolve script (some s.separator)
    if separator ≠ s.separator then Logged.log (.lineBreaksInstead path s.separator)
    return s.set .separator separator
  else return s

end Options
end SqlStatements.Command
