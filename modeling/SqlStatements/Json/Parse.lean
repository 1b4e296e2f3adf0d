import SqlStatements.Json.Basic

namespace SqlStatements.Json

def isBlank (c : Char) : Bool := c == ' ' || c == '\t' || c == '\n' || c == '\r'

def skipBlanks (t : Text) : Text := t.dropWhile isBlank

/-- The piece after a backslash, and the number of characters it takes. -/
def escape? : Text → Option (Piece × Nat)
  | [] => none
  | c :: rest =>
    match c with
    | '"' => some (.char '"', 1)
    | '\\' => some (.char '\\', 1)
    | '/' => some (.char '/', 1)
    | 'b' => some (.char '\x08', 1)
    | 'f' => some (.char '\x0c', 1)
    | 'n' => some (.char '\n', 1)
    | 'r' => some (.char '\r', 1)
    | 't' => some (.char '\t', 1)
    | 'u' => (Hex.number? 4 rest).map fun code => (.unit code, 5)
    | _ => none

/-- The pieces up to the closing quote, and the text after it. Control characters must
be escaped. -/
def closeString? (t : Text) : Option (List Piece × Text) :=
  match t with
  | [] => none
  | c :: rest =>
    if c = '"' then some ([], rest)
    else if c = '\\' then
      match escape? rest with
      | none => none
      | some (piece, n) => (closeString? (rest.drop n)).map fun (more, t) => (piece :: more, t)
    else if c.toNat < 0x20 then none
    else (closeString? rest).map fun (more, t) => (.char c :: more, t)
termination_by t.length
decreasing_by all_goals simp only [List.length_cons, List.length_drop]; omega

def digits (t : Text) : Text := t.takeWhile Char.isDigit

def afterSign (signs : Text) : Text → Text
  | [] => []
  | c :: rest => if signs.contains c then rest else c :: rest

/-- The text after an integer without leading zeros. -/
def afterInteger? (t : Text) : Option Text :=
  match t with
  | [] => none
  | c :: rest =>
    if c = '0' then some rest else if c.isDigit then some (rest.dropWhile Char.isDigit) else none

def afterDigits? (t : Text) : Option Text :=
  if (digits t).isEmpty then none else some (t.dropWhile Char.isDigit)

def afterFraction? : Text → Option Text
  | [] => some []
  | c :: rest => if c = '.' then afterDigits? rest else some (c :: rest)

def afterExponent? : Text → Option Text
  | [] => some []
  | c :: rest =>
    if c = 'e' ∨ c = 'E' then afterDigits? (afterSign ['+', '-'] rest) else some (c :: rest)

def number? (t : Text) : Option (Json × Text) := do
  let rest ← afterExponent? (← afterFraction? (← afterInteger? (afterSign ['-'] t)))
  return (.number (t.take (t.length - rest.length)), rest)

def after? (word t : Text) : Option Text :=
  if word.isPrefixOf t then some (t.drop word.length) else none

def scalar? (t : Text) : Option (Json × Text) :=
  (after? "null".toList t).map (.null, ·)
    <|> (after? "true".toList t).map (.bool true, ·)
    <|> (after? "false".toList t).map (.bool false, ·)
    <|> number? t

mutual

/-- The value at the front of the text, and the text after it. The fuel bounds the
nesting and the number of items. -/
def value? : Nat → Text → Option (Json × Text)
  | 0, _ => none
  | fuel + 1, t =>
    match skipBlanks t with
    | '"' :: rest => (closeString? rest).map fun (pieces, rest) => (.string pieces, rest)
    | '[' :: rest =>
      match skipBlanks rest with
      | ']' :: rest => some (.array [], rest)
      | rest => (items? fuel rest).map fun (items, rest) => (.array items, rest)
    | '\x7b' :: rest =>
      match skipBlanks rest with
      | '\x7d' :: rest => some (.object [], rest)
      | rest => (members? fuel rest).map fun (members, rest) => (.object members, rest)
    | rest => scalar? rest

def items? : Nat → Text → Option (List Json × Text)
  | 0, _ => none
  | fuel + 1, t =>
    match value? fuel t with
    | none => none
    | some (item, rest) =>
      match skipBlanks rest with
      | ',' :: rest => (items? fuel rest).map fun (items, rest) => (item :: items, rest)
      | ']' :: rest => some ([item], rest)
      | _ => none

def members? : Nat → Text → Option (List (List Piece × Json) × Text)
  | 0, _ => none
  | fuel + 1, t =>
    match skipBlanks t with
    | '"' :: rest =>
      match closeString? rest with
      | none => none
      | some (key, rest) =>
        match skipBlanks rest with
        | ':' :: rest =>
          match value? fuel rest with
          | none => none
          | some (value, rest) =>
            match skipBlanks rest with
            | ',' :: rest =>
              (members? fuel rest).map fun (members, rest) => ((key, value) :: members, rest)
            | '\x7d' :: rest => some ([(key, value)], rest)
            | _ => none
        | _ => none
    | _ => none

end

/-- The document a text holds. Every item takes at least one character, and so does
every level, which a value and its items enter in two steps. -/
def parse? (t : Text) : Option Json :=
  match value? (2 * t.length + 2) t with
  | some (value, rest) => if (skipBlanks rest).isEmpty then some value else none
  | none => none

end SqlStatements.Json
