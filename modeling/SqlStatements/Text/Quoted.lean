import SqlStatements.Text.Basic
import SqlStatements.Text.Printable

namespace SqlStatements.Text

def quotedChar (c : Char) : Text :=
  if c = '"' then ['\\', '"']
  else if c = '\\' then ['\\', '\\']
  else if c = '\t' then ['\\', 't']
  else if c = '\n' then ['\\', 'n']
  else if c = '\r' then ['\\', 'r']
  else if c = '\x00' then ['\\', '0']
  else if isPrintable c then [c]
  else ['\\', 'u', '\x7b'] ++ Nat.toDigits 16 c.toNat ++ ['\x7d']

/-- The text between double quotes, readable on one line. -/
def quoted (t : Text) : Text := '"' :: t.flatMap quotedChar ++ ['"']

end SqlStatements.Text
