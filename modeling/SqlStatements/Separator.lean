import SqlStatements.Logged

namespace SqlStatements.Separator

def usual : Text := [';']

/-- The separator of scripts that do not use the one asked for. -/
def lineBreak : Text := ['\n']

/-- The delimiter occurs from here on outside of single quotes. `quoted` tells whether
the text starts inside of them. -/
def occurs (delimiter : Text) (quoted : Bool) : Text → Bool
  | [] => false
  | c :: cs =>
    let quoted := if c = '\x27' then !quoted else quoted
    (!quoted && delimiter.isPrefixOf (c :: cs)) || occurs delimiter quoted cs

/-- The script uses the delimiter outside of single quotes. The empty one is used nowhere. -/
def isUsed (script delimiter : Text) : Bool := !delimiter.isEmpty && occurs delimiter false script

/-- The separator asked for if the script uses it, and the line break otherwise. -/
def resolve (script : Text) (requested : Option Text) : Logged ε Text :=
  let separator := requested.getD usual
  if isUsed script separator then .ofExcept (.ok separator)
  else ⟨[.separatorAbsent separator], .ok lineBreak⟩

end SqlStatements.Separator
