import SqlStatements.Text.Blank

namespace SqlStatements.Yaml

/-- What is left of a document, and the place where it starts. -/
structure Reader where
  rest : Text
  index : Nat
  line : Nat
  column : Nat
  /-- Only blanks stand before the place on its line. -/
  fresh : Bool

def isSpace (c : Char) : Bool := c == ' ' || c == '\t'

def isFlowSign (c : Char) : Bool := [',', '[', ']', '\x7b', '\x7d'].contains c

def isGap (t : Text) : Bool := t.head?.all fun c => isSpace c || isLineBreak c

/-- What lines lie between: the words of a plain scalar, the words of a quoted one, or two
tokens. -/
inductive Between where
  | plain
  | quoted
  | tokens
deriving DecidableEq

namespace Reader

/-- The reader of a whole document, which a null character ends. -/
def start (document : Text) : Reader := ⟨document.takeWhile (· != '\x00'), 0, 0, 0, true⟩

def peek (r : Reader) : Option Char := r.rest.head?

def atEnd (r : Reader) : Bool := r.rest.isEmpty

def atLineEnd (r : Reader) : Bool := r.rest.head?.all isLineBreak

def atMark (r : Reader) : Bool :=
  [['-', '-', '-'], ['.', '.', '.']].any fun mark => mark.isPrefixOf r.rest && isGap (r.rest.drop 3)

def skip (r : Reader) (n : Nat) : Reader where
  rest := r.rest.drop n
  index := r.index + n
  line := r.line
  column := r.column + n
  fresh := r.fresh && (r.rest.take n).all isSpace

def skipSpaces (r : Reader) : Reader := r.skip (r.rest.takeWhile (· == ' ')).length

def skipBlanks (r : Reader) : Reader := r.skip (r.rest.takeWhile isSpace).length

/-- The reader behind a comment. One that fills a line leaves the line empty. -/
def skipComment (r : Reader) : Reader :=
  if r.peek = some '#' then
    { r.skip (r.rest.takeWhile fun c => !isLineBreak c).length with fresh := r.fresh }
  else r

/-- The reader behind blanks and a comment, which a blank must divide from what stands
before it. -/
def skipRest? (r : Reader) : Option Reader :=
  if r.peek = some '#' then none else some r.skipBlanks.skipComment

/-- The reader at the start of the next line, if a line break is next. A carriage return
and a line feed are one line break. -/
def nextLine? (r : Reader) : Option Reader :=
  match r.rest with
  | [] => none
  | c :: rest =>
    if c = '\r' ∧ rest.head? = some '\n' then
      some ⟨rest.drop 1, r.index + 2, r.line + 1, 0, true⟩
    else if isLineBreak c then some ⟨rest, r.index + 1, r.line + 1, 0, true⟩
    else none

/-- A tab stands among the blanks that start a line, left of the column it may stand at. -/
def hasTab (between : Between) (margin : Nat) (r : Reader) : Bool :=
  r.fresh && r.skipSpaces.peek == some '\t'
    && r.skipSpaces.column < (if between = .plain then margin else margin - 1)

/-- The reader behind the blanks of a line, and behind a comment between tokens. A tab
does not indent: left of the margin it may stand on an empty line only, and not at all
between quotes. -/
def indent? (between : Between) (margin : Nat) (r : Reader) : Option Reader :=
  if r.hasTab between margin then
    if between = .quoted then none else r.skipSpaces.skipRest?.filter atLineEnd
  else some (if between = .tokens then r.skipBlanks.skipComment else r.skipBlanks)

theorem length_skip (r : Reader) (n : Nat) : (r.skip n).rest.length ≤ r.rest.length := by
  simp [skip]

theorem length_skipComment (r : Reader) : r.skipComment.rest.length ≤ r.rest.length := by
  unfold skipComment
  split
  · exact length_skip r _
  · exact Nat.le_refl _

theorem length_skipRest? {r next : Reader} (h : r.skipRest? = some next) :
    next.rest.length ≤ r.rest.length := by
  unfold skipRest? at h
  split at h
  · cases h
  · cases h
    exact Nat.le_trans (length_skipComment _) (length_skip _ _)

theorem length_nextLine? {r next : Reader} (h : r.nextLine? = some next) :
    next.rest.length < r.rest.length := by
  unfold nextLine? at h
  split at h
  · cases h
  · rename_i c rest he
    rw [he]
    split at h
    · cases h
      simp only [List.length_drop, List.length_cons]
      omega
    · split at h
      · cases h
        simp
      · cases h

theorem length_indent? {between : Between} {margin : Nat} {r next : Reader}
    (h : r.indent? between margin = some next) : next.rest.length ≤ r.rest.length := by
  unfold indent? at h
  split at h
  · split at h
    · cases h
    · exact Nat.le_trans (length_skipRest? (Option.filter_eq_some_iff.mp h).1) (length_skip _ _)
  · cases h
    split
    · exact Nat.le_trans (length_skipComment _) (length_skip _ _)
    · exact length_skip _ _

def skipLines? (between : Between) (margin : Nat) (r : Reader) : Option (Nat × Reader) :=
  match _h : r.indent? between margin with
  | none => none
  | some behind =>
    match _h' : behind.nextLine? with
    | none => some (0, behind)
    | some next => (skipLines? between margin next).map fun (breaks, r) => (breaks + 1, r)
termination_by r.rest.length
decreasing_by exact Nat.lt_of_lt_of_le (length_nextLine? _h') (length_indent? _h)

end Reader
end SqlStatements.Yaml
