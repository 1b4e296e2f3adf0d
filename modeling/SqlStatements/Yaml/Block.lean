import SqlStatements.Yaml.Words

namespace SqlStatements.Yaml

/-- What becomes of the line breaks at the end of a block scalar. -/
inductive Chomping where
  | strip
  | clip
  | keep
deriving DecidableEq

def Chomping.ofSign? (c : Char) : Option Chomping :=
  if c = '-' then some .strip else if c = '+' then some .keep else none

structure Header where
  chomping : Chomping
  /-- How far the lines are indented, or zero to let the first line tell. -/
  indent : Nat
  size : Nat

/-- The header at the front of a text: a sign and a digit other than zero, in any order. -/
def header? (t : Text) : Option Header :=
  let before := t.head?.bind Chomping.ofSign?
  let t := if before.isSome then t.drop 1 else t
  let digit := t.head?.filter Char.isDigit
  let after := if before.isNone ∧ digit.isSome then t.tail.head?.bind Chomping.ofSign? else none
  let sign := before.orElse fun _ => after
  let size := sign.toList.length + digit.toList.length
  if digit = some '0' then none
  else some ⟨sign.getD .clip, (digit.bind Hex.digit?).getD 0, size⟩

namespace Reader

/-- The number of line breaks before the next line with text, and the reader at that text
or at the column where the text of the scalar starts. -/
def skipIndent (indent : Nat) (r : Reader) : Nat × Reader :=
  let behind := r.skip (min (r.rest.takeWhile (· == ' ')).length (indent - r.column))
  match _h : behind.nextLine? with
  | none => (0, behind)
  | some next =>
    let last := skipIndent indent next
    (last.1 + 1, last.2)
termination_by r.rest.length
decreasing_by exact Nat.lt_of_lt_of_le (length_nextLine? _h) (length_skip _ _)

def widestIndent (r : Reader) : Nat :=
  match _h : r.skipSpaces.nextLine? with
  | none => r.skipSpaces.column
  | some next => max r.skipSpaces.column (widestIndent next)
termination_by r.rest.length
decreasing_by exact Nat.lt_of_lt_of_le (length_nextLine? _h) (length_skip _ _)

theorem length_skipIndent (indent : Nat) (r : Reader) :
    (r.skipIndent indent).2.rest.length ≤ r.rest.length := by
  unfold skipIndent
  simp only
  split
  next => exact length_skip _ _
  next next h =>
    have hl := Nat.lt_of_lt_of_le (length_nextLine? h) (length_skip _ _)
    exact Nat.le_trans (length_skipIndent indent next) (Nat.le_of_lt hl)
termination_by r.rest.length
decreasing_by exact hl

end Reader

structure Body where
  text : Text
  /-- A line break ends the last line with text. -/
  closed : Bool
  empty : Nat
  next : Reader

/-- The lines of a block scalar from the reader on, which is at text. Where lines are
folded, those that start with a blank keep their line breaks. -/
def Body.read (folded : Bool) (indent : Nat) (r : Reader) : Body :=
  let content := r.rest.takeWhile fun c => !isLineBreak c
  match _h : (r.skip content.length).nextLine? with
  | none => ⟨content, false, 0, r.skip content.length⟩
  | some start =>
    let gap := start.skipIndent indent
    if gap.2.column = indent ∧ ¬ gap.2.atEnd then
      let more := Body.read folded indent gap.2
      let apart := !folded || r.peek.any isSpace || gap.2.peek.any isSpace
      let space := if apart then List.replicate (gap.1 + 1) '\n' else fold gap.1
      { more with text := content ++ space ++ more.text }
    else ⟨content, true, gap.1, gap.2⟩
termination_by r.rest.length
decreasing_by
  exact Nat.lt_of_le_of_lt (Reader.length_skipIndent _ _)
    (Nat.lt_of_lt_of_le (Reader.length_nextLine? _h) (Reader.length_skip _ _))

/-- The text with the line breaks at its end. A last line that nothing ends, or that ends
at the end of the document, is taken to have a line break of its own. -/
def Body.chomped (chomping : Chomping) (indent : Nat) (b : Body) : Text :=
  let lineBreak (present : Bool) : Text := if present then ['\n'] else []
  let last := lineBreak b.closed ++ lineBreak (b.next.atEnd && max indent 1 ≤ b.next.column)
  match chomping with
  | .strip => b.text
  | .clip => b.text ++ last
  | .keep => b.text ++ last ++ List.replicate b.empty '\n'

/-- The text of a block scalar without lines: the numbers of line breaks that are clipped
and kept. -/
def noText (chomping : Chomping) (clipped kept : Nat) : Text :=
  match chomping with
  | .strip => []
  | .clip => List.replicate clipped '\n'
  | .keep => List.replicate kept '\n'

def Reader.block? (folded : Bool) (margin : Nat) (r : Reader) : Option (Text × Reader) := do
  let header ← header? r.rest
  let head ← (r.skip header.size).skipRest?
  if !head.atLineEnd then none
  else
    match head.nextLine? with
    | none => some ([], head)
    | some start =>
      let indent :=
        if header.indent = 0 then max start.widestIndent margin else margin - 1 + header.indent
      let (empty, first) := start.skipIndent indent
      if start.peek = some '\t' then none
      else if first.atEnd then some (noText header.chomping 1 (max empty 1), first)
      else if first.column = indent then
        let body := Body.read folded indent first
        some (List.replicate empty '\n' ++ body.chomped header.chomping indent, body.next)
      else if first.column < indent ∧ margin ≤ first.column then none
      else some (noText header.chomping 0 empty, first)

end SqlStatements.Yaml
