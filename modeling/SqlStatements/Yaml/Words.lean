import SqlStatements.Yaml.Escape
import SqlStatements.Yaml.Reader

namespace SqlStatements.Yaml

/-- What a line break between two words and the empty lines after it stand for: a space,
or one line break for each empty line. -/
def fold (empty : Nat) : Text := if empty = 0 then [' '] else List.replicate empty '\n'

/-- The text that blanks and line breaks between two words of a scalar stand for, and the
reader at the second word. -/
def Reader.space? (between : Between) (margin : Nat) (r : Reader) : Option (Text × Reader) :=
  match r.skipBlanks.nextLine? with
  | none => some (r.rest.takeWhile isSpace, r.skipBlanks)
  | some next => (next.skipLines? between margin).map fun (empty, r) => (fold empty, r)

def endsPlain (inFlow : Bool) (t : Text) : Bool :=
  isGap t || t.head? == some ':' && (isGap t.tail || inFlow && t.tail.head?.any isFlowSign)
    || inFlow && t.head?.any isFlowSign

def plainWord (inFlow : Bool) : Text → Text
  | [] => []
  | c :: rest => if endsPlain inFlow (c :: rest) then [] else c :: plainWord inFlow rest

/-- A plain scalar, and the reader behind it and the blanks that follow. Outside of flow
collections its lines start at the margin or right of it. -/
def Reader.plain? (inFlow : Bool) (margin : Nat) (r : Reader) : Option (Text × Reader) :=
  if r.fresh ∧ r.atMark ∨ r.peek = some '#' then some ([], r)
  else if inFlow ∧ r.peek = some '-' ∧ r.rest.tail.head?.any isFlowSign then none
  else
    let word := plainWord inFlow r.rest
    let behind := r.skip word.length
    match behind.space? .plain margin with
    | none => none
    | some (space, next) =>
      if _h : next.rest.length < behind.rest.length then
        if !inFlow && next.column < margin then some (word, next)
        else
          match plain? inFlow margin next with
          | some ([], last) => some (word, last)
          | some (more, last) => some (word ++ space ++ more, last)
          | none => none
      else some (word, next)
termination_by r.rest.length
decreasing_by exact Nat.lt_of_lt_of_le _h (Reader.length_skip _ _)

/-- The part of a quoted scalar up to a blank, a line break or the closing quote. -/
structure Segment where
  text : Text
  size : Nat
  joined : Bool

def Segment.cons (c : Char) (size : Nat) (s : Segment) : Segment :=
  { s with text := c :: s.text, size := s.size + size }

/-- The segment at the front of a text. Two single quotes stand for one, and escapes are
read between double quotes. -/
def segment? (quote : Char) (t : Text) : Option Segment :=
  match t with
  | [] => some ⟨[], 0, false⟩
  | c :: rest =>
    if isSpace c || isLineBreak c then some ⟨[], 0, false⟩
    else if c = quote then
      if quote = '\x27' ∧ rest.head? = some quote then
        (segment? quote (rest.drop 1)).map (Segment.cons quote 2)
      else some ⟨[], 0, false⟩
    else if quote = '"' ∧ c = '\\' then
      if rest.head?.any isLineBreak then some ⟨[], 1, true⟩
      else
        match escape? rest with
        | none => none
        | some (d, size) => (segment? quote (rest.drop size)).map (Segment.cons d (size + 1))
    else (segment? quote rest).map (Segment.cons c 1)
termination_by t.length
decreasing_by all_goals simp only [List.length_cons, List.length_drop]; omega

def Reader.quoted? (quote : Char) (margin : Nat) (r : Reader) : Option (Text × Reader) :=
  if r.column = 0 ∧ r.atMark ∨ r.column + 1 < margin then none
  else
    match segment? quote r.rest with
    | none => none
    | some ⟨text, size, joined⟩ =>
      let behind := r.skip size
      if behind.peek = some quote then some (text, behind.skip 1)
      else
        let space :=
          if joined then
            (behind.nextLine?.bind (skipLines? .quoted margin)).map fun (empty, r) =>
              (List.replicate empty '\n', r)
          else behind.space? .quoted margin
        match space with
        | none => none
        | some (space, next) =>
          if next.rest.length < r.rest.length then
            (quoted? quote margin next).map fun (more, last) => (text ++ space ++ more, last)
          else none
termination_by r.rest.length

end SqlStatements.Yaml
