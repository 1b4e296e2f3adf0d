import SqlStatements.Text.Basic

namespace SqlStatements

/-- A place in a script, both parts counted from one. -/
structure Position where
  line : Nat
  column : Nat
deriving DecidableEq

namespace Position

/-- The place reached after reading `before`: each line feed starts a line, and
every character since the last one takes a column. -/
def after (before : Text) : Position where
  line := before.count '\n' + 1
  column := (before.reverse.takeWhile (· != '\n')).length + 1

/-- The place of a byte offset, which counts as the end when it lies beyond it. -/
def at? (script : Text) (offset : Nat) : Option Position :=
  (script.takeBytes? offset).map after

end Position
end SqlStatements
