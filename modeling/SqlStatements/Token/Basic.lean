import SqlStatements.Text.Position
import SqlStatements.Text.Quoted

namespace SqlStatements

/-- What a run of script text is. `eof` is the empty run at the end. -/
inductive Token.Kind where
  | separator
  | comment
  | quotedString
  | whitespace
  | identifier
  | other
  | eof
deriving DecidableEq

def Token.Kind.name : Token.Kind → String
  | .separator => "Separator"
  | .comment => "Comment"
  | .quotedString => "QuotedString"
  | .whitespace => "Whitespace"
  | .identifier => "Identifier"
  | .other => "Other"
  | .eof => "Eof"

def Token.Kind.all : List Token.Kind :=
  [.separator, .comment, .quotedString, .whitespace, .identifier, .other, .eof]

/-- A run of script text and the byte offset where it starts. -/
structure Token where
  kind : Token.Kind
  text : Text
  start : Nat
deriving DecidableEq

namespace Token

def stop (t : Token) : Nat := t.start + t.text.byteSize

def eof (offset : Nat) : Token := ⟨.eof, [], offset⟩

def isEof (t : Token) : Bool := t.kind == .eof

def isTrivia (t : Token) : Bool := t.kind == .comment || t.kind == .whitespace

def isKeyword (t : Token) (word : Text) : Bool := t.kind == .identifier && t.text.sameWord word

def isBegin (t : Token) : Bool := t.isKeyword ['b', 'e', 'g', 'i', 'n']

def isEnd (t : Token) : Bool := t.isKeyword ['e', 'n', 'd']

/-- The place of the token, if it starts between two characters of the script. -/
def position? (t : Token) (script : Text) : Option Position := Position.at? script t.start

/-- The tokens with their places, in a script that goes on with them after `before`. -/
def placed (before : Text) : List Token → List (Position × Token)
  | [] => []
  | t :: ts => (.after before, t) :: placed (before ++ t.text) ts

def display (t : Token) : Text := t.kind.name.toList ++ ['('] ++ t.text.quoted ++ [')']

end Token
end SqlStatements
