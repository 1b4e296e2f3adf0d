import SqlStatements.Text.Basic

namespace SqlStatements.Command

inductive FileFault where
  | absent
  | denied
  | directory
  | malformed
deriving DecidableEq

def FileFault.message (path : Text) : FileFault → String
  | .absent => opened "No such file or directory (os error 2)"
  | .denied => opened "Permission denied (os error 13)"
  | .directory => read "Is a directory (os error 21)"
  | .malformed => read "stream did not contain valid UTF-8"
where
  opened (reason : String) : String :=
    "failed to open file `" ++ String.ofList path ++ "`: " ++ reason
  read (reason : String) : String :=
    "failed to read from file `" ++ String.ofList path ++ "`: " ++ reason

abbrev Files := Text → Except FileFault ByteArray

/-- The text of a file, which must be UTF-8. -/
def Files.text (files : Files) (path : Text) : Except FileFault Text :=
  match files path with
  | .error fault => .error fault
  | .ok bytes =>
    match String.fromUTF8? bytes with
    | some text => .ok text.toList
    | none => .error .malformed

/-- The names on the way of a path; a dot stays where it is. -/
def names (path : Text) : List Text :=
  (steps path).filter fun name => name ≠ [] ∧ name ≠ ['.']
where
  steps : Text → List Text
    | [] => [[]]
    | c :: cs =>
      if c = '/' then [] :: steps cs
      else
        match steps cs with
        | [] => [[c]]
        | name :: more => (c :: name) :: more

/-- The files of one directory, seen from inside of it. -/
def Files.ofList (entries : List (Text × ByteArray)) : Files := fun path =>
  if path = [] ∨ path.head? = some '/' then .error .absent
  else if names path = [] then .error .directory
  else
    match entries.find? fun entry => names entry.1 == names path with
    | some entry => .ok entry.2
    | none => .error .absent

end SqlStatements.Command
