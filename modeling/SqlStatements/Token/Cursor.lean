import SqlStatements.Text.Buffer
import SqlStatements.Token.Stream

namespace SqlStatements

/-- A place between two tokens of a script that is being read. -/
structure Cursor where
  settings : Settings
  consumed : Buffer
  remaining : Text
  offset : Nat
  /-- The iteration has met a failure and is over. -/
  stopped : Bool
  offset_eq : offset = consumed.text.byteSize

namespace Cursor

def start (settings : Settings) (script : Text) : Cursor :=
  ⟨settings, .empty, script, 0, false, rfl⟩

def atEnd (c : Cursor) : Bool := c.remaining.isEmpty

def advance (c : Cursor) (n : Nat) : Cursor :=
  { c with
    consumed := c.consumed.push (c.remaining.take n)
    remaining := c.remaining.drop n
    offset := c.offset + Text.byteSize (c.remaining.take n)
    offset_eq := by simp [c.offset_eq] }

/-- Reads the token at the cursor. The cursor stays where a failure occurs, and at the
end, where every token is the empty one. -/
def nextToken (c : Cursor) : Except Failure Token × Cursor :=
  match Token.classify c.settings c.remaining with
  | .error why => (.error (.unclosed c.settings (.after c.consumed.text) why), c)
  | .ok (kind, n) => (.ok ⟨kind, c.remaining.take n, c.offset⟩, c.advance n)

/-- The next item of the iteration: a token before the end, or once a failure. -/
def next (c : Cursor) : Option (Except Failure Token) × Cursor :=
  if c.stopped then (none, c)
  else
    match c.nextToken with
    | (.error e, c) => (some (.error e), { c with stopped := true })
    | (.ok token, c) => (if token.isEof then none else some (.ok token), c)

/-- At the end the cursor reads the empty token and stays. -/
theorem nextToken_atEnd {c : Cursor} (h : c.remaining = []) :
    c.nextToken = (.ok (.eof c.offset), c) := by
  obtain ⟨settings, consumed, remaining, offset, stopped, offset_eq⟩ := c
  subst h
  simp [nextToken, Token.classify_nil, advance, Token.eof]

/-- Before the end a token that is read moves the cursor, and it is not the empty one. -/
theorem nextToken_moves {c d : Cursor} {t : Token} (hne : c.remaining ≠ [])
    (h : c.nextToken = (.ok t, d)) :
    d.remaining.length < c.remaining.length ∧ t.isEof = false := by
  unfold nextToken at h
  split at h
  · cases h
  · rename_i kind n hc
    cases h
    obtain ⟨hp, hl⟩ := Token.fits_classify hne hc
    refine ⟨?_, by simpa [Token.isEof] using Token.kind_ne_eof_of_classify hne hc⟩
    simp only [advance, List.length_drop]
    omega

/-- An item of the iteration that is a token moves the cursor. -/
theorem next_moves {c d : Cursor} {t : Token} (h : c.next = (some (.ok t), d)) :
    d.remaining.length < c.remaining.length := by
  unfold next at h
  split at h
  · cases h
  · split at h
    · cases h
    · rename_i u e hr
      split at h
      · cases h
      · rename_i hf
        cases h
        by_cases he : c.remaining = []
        · rw [nextToken_atEnd he] at hr
          cases hr
          exact absurd rfl hf
        · exact (nextToken_moves he hr).1

/-- The numbers of tokens and failures that the iteration still yields, and the cursor
after it. -/
def count (c : Cursor) : (Nat × Nat) × Cursor :=
  match _h : c.next with
  | (none, d) => ((0, 0), d)
  | (some (.error _), d) => ((0, 1), d)
  | (some (.ok _), d) =>
    let ((tokens, failures), last) := d.count
    ((tokens + 1, failures), last)
termination_by c.remaining.length
decreasing_by exact next_moves _h

end Cursor
end SqlStatements
