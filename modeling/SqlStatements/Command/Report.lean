import SqlStatements.Json.Pretty
import SqlStatements.Token.Basic

namespace SqlStatements.Command

inductive Format where
  | text
  | json
deriving DecidableEq

def Format.ofName? (name : Text) : Option Format :=
  if name = "text".toList then some .text
  else if name = "json".toList then some .json
  else none

def padLeft (width : Nat) (t : Text) : Text := List.replicate (width - t.length) ' ' ++ t

def padRight (width : Nat) (t : Text) : Text := t ++ List.replicate (width - t.length) ' '

def decimal (n : Nat) : Text := Nat.toDigits 10 n

def jsonReport (document : Json) : Text := document.pretty 0 ++ ['\n']

/-- The statements, with an empty line between two of them. -/
def statementReport (statements : List Text) : Format → Text
  | .text => ['\n'].intercalate (statements.map (· ++ ['\n']))
  | .json => jsonReport (.array (statements.map Json.ofText))

/-- A token on one line: place, byte range, kind and quoted text. -/
def tokenLine (place : Position) (t : Token) : Text :=
  padLeft 4 (decimal place.line) ++ [':'] ++ padRight 4 (decimal place.column) ++ [' '] ++
    padLeft 6 (decimal t.start) ++ ['.', '.'] ++ padRight 6 (decimal t.stop) ++ [' '] ++
    padRight 12 t.kind.name.toList ++ [' '] ++ t.text.quoted ++ ['\n']

def tokenJson (t : Token) : Json :=
  .object
    [(Json.key "kind", .ofText t.kind.name.toList), (Json.key "text", .ofText t.text),
      (Json.key "start", .ofNat t.start), (Json.key "end", .ofNat t.stop)]

def tokenReport (tokens : List Token) : Format → Text
  | .text => (Token.placed [] tokens).flatMap fun (place, t) => tokenLine place t
  | .json => jsonReport (.array (tokens.map tokenJson))

end SqlStatements.Command
