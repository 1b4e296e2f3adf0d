import SqlStatements.Event
import SqlStatements.Text.Blank
import SqlStatements.Text.Buffer
import SqlStatements.Token.Basic

namespace SqlStatements

/-- An open block. The outermost one began the statement, the others lie inside it. -/
structure Frame where
  outermost : Bool
deriving DecidableEq

/-- Blanks that have been read and not yet written. -/
inductive Gap where
  | none
  | spaces
  | lineBreak
deriving DecidableEq

/-- How the next token is read. -/
inductive Assembly.Mode where
  | standard
  | block (top : Frame) (below : List Frame)
  /-- After an `END` that may close the top block, with the trivia since then. -/
  | closing (top : Frame) (below : List Frame) (held : Text)
  | finished
deriving DecidableEq

/-- How often the end of the input is read from here on: by an `END` that waits for its
separator, by the blocks that are still open, and by the script itself. -/
def Assembly.Mode.endReads : Assembly.Mode → Nat
  | .standard => 1
  | .block _ _ => 2
  | .closing _ [] _ => 2
  | .closing _ (_ :: _) _ => 3
  | .finished => 0

theorem Assembly.Mode.endReads_le (m : Assembly.Mode) : m.endReads ≤ 3 := by
  unfold Assembly.Mode.endReads
  split <;> decide

structure Assembly where
  mode : Assembly.Mode
  gap : Gap
  buffer : Buffer
  statements : List Text
  events : List Event

namespace Assembly

def empty : Assembly := ⟨.standard, .none, .empty, [], []⟩

def push (a : Assembly) (text : Text) : Assembly := { a with buffer := a.buffer.push text }

def log (a : Assembly) (event : Event) : Assembly := { a with events := a.events ++ [event] }

def goTo (a : Assembly) (mode : Mode) : Assembly := { a with mode := mode }

/-- Ends the statement in the buffer, unless it is blank. -/
def flush (a : Assembly) : Assembly :=
  let statement := a.buffer.text.trim
  { a with
    buffer := .empty
    statements := if statement.isEmpty then a.statements else a.statements ++ [statement] }

/-- The character a gap leaves between two tokens. Only a line break joins two string
literals into one, so it stays a line break between them. -/
def filler (gap : Gap) (last : Option Char) (next : Token.Kind) : Char :=
  if gap = .lineBreak ∧ (last = some '\x27' ∨ last = some '"') ∧ next = .quotedString then '\n'
  else ' '

/-- Writes the gap before the next token. Nothing is written at the start of a
statement, and no filler twice. -/
def fillGap (a : Assembly) (next : Token) : Assembly :=
  let c := filler a.gap a.buffer.last? next.kind
  if a.gap = .none ∨ a.buffer.isEmpty ∨ a.buffer.last? = some c then { a with gap := .none }
  else { a.push [c] with gap := .none }

/-- Closes the top block. The statement ends with the outermost one. -/
def close (a : Assembly) : List Frame → Assembly
  | [] => ((a.log (.blockClosed 0)).flush).goTo .standard
  | top :: below => (a.log (.blockClosed (below.length + 1))).goTo (.block top below)

/-- Outside of blocks comments are dropped, blanks shrink and the separator ends the
statement. -/
def readStandard (a : Assembly) (t : Token) : Assembly :=
  match t.kind with
  | .eof => a.flush.goTo .finished
  | .separator => { a.flush with gap := .none }
  | .comment => a
  | .whitespace => { a with gap := if t.text.any isLineBreak then .lineBreak else .spaces }
  | .identifier =>
    if t.isBegin then
      (((a.fillGap t).push t.text).log (.blockEntered t.stop)).goTo (.block ⟨true⟩ [])
    else (a.fillGap t).push t.text
  | .quotedString => (a.fillGap t).push t.text
  | .other => (a.fillGap t).push t.text

def readBlock (a : Assembly) (top : Frame) (below : List Frame) (t : Token) : Assembly :=
  if t.isEof then ((a.log (.blocksLeftOpen (below.length + 1))).flush).goTo .standard
  else if t.isBegin then
    ((a.push t.text).log (.blockNested (below.length + 2))).goTo (.block ⟨false⟩ (top :: below))
  else if t.isEnd then (a.push t.text).goTo (.closing top below [])
  else a.push t.text

/-- The token after `END` decides whether the block closes. A separator or a semicolon
closes it, and so does the end of the input. The outermost block drops what stands
before the separator, and the separator with it. -/
def readClosing (a : Assembly) (top : Frame) (below : List Frame) (held : Text) (t : Token) :
    Assembly :=
  if t.isEof then a.close below
  else if t.isTrivia then a.goTo (.closing top below (held ++ t.text))
  else if t.kind = .separator then
    (if top.outermost then a else a.push (held ++ t.text)).close below
  else if t.text = [';'] then
    (if top.outermost then a.push t.text else a.push (held ++ t.text)).close below
  else (a.push (held ++ t.text)).goTo (.block top below)

def read (a : Assembly) (t : Token) : Assembly :=
  match a.mode with
  | .standard => a.readStandard t
  | .block top below => a.readBlock top below t
  | .closing top below held => a.readClosing top below held t
  | .finished => a

/-- Reading the end of the input brings the assembly nearer to its own end. -/
theorem endReads_read_lt {a : Assembly} {t : Token} (h : a.mode ≠ .finished)
    (he : t.isEof = true) : (a.read t).mode.endReads < a.mode.endReads := by
  have hk : t.kind = .eof := by simpa [Token.isEof] using he
  unfold read
  split
  · rename_i hm
    simp [readStandard, hk, goTo, Mode.endReads, hm]
  · rename_i top below hm
    simp [readBlock, he, goTo, Mode.endReads, hm]
  · rename_i top below held hm
    cases below <;> simp [readClosing, he, close, goTo, Mode.endReads, hm]
  · contradiction

end Assembly
end SqlStatements
