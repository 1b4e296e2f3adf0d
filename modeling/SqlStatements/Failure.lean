import SqlStatements.Settings.Basic
import SqlStatements.Text.Position
import SqlStatements.Lexeme.Comment

namespace SqlStatements

/-- Why a script cannot be read, with the place of the opener. -/
inductive ParseFailure where
  | unclosedComment (closer : Text) (place : Position)
  | unclosedDollarQuote (tag : Text) (place : Position)
deriving DecidableEq

inductive Failure where
  | parse (resource : Text) (cause : ParseFailure)
  | settings (cause : Settings.Error)
deriving DecidableEq

def ParseFailure.message : ParseFailure → String
  | .unclosedComment closer ⟨line, column⟩ =>
    let closer := String.ofList closer
    s!"Missing block comment end delimiter [{closer}] for comment opened at " ++
      s!"line {line}, column {column}"
  | .unclosedDollarQuote tag ⟨line, column⟩ =>
    let tag := String.ofList tag
    s!"Unclosed dollar quoted string [{tag}] opened at line {line}, column {column}"

namespace Failure

/-- The failure of reading a script on at an opener that is never closed. -/
def unclosed (settings : Settings) (place : Position) : Lexeme.Unclosed → Failure
  | .blockComment => .parse settings.resource (.unclosedComment settings.blockClose place)
  | .dollarQuote tag => .parse settings.resource (.unclosedDollarQuote tag place)

def cause : Failure → String
  | .parse _ cause => cause.message
  | .settings cause => cause.message

def message : Failure → String
  | .parse resource cause =>
    "Failed to parse script " ++ String.ofList resource ++ ": " ++ cause.message
  | .settings cause => "Invalid script configuration: " ++ cause.message

def resource? : Failure → Option Text
  | .parse resource _ => some resource
  | .settings _ => none

def isParseFailure : Failure → Bool
  | .parse _ _ => true
  | .settings _ => false

end Failure
end SqlStatements
