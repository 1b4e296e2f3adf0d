import SqlStatements.Yaml.Block
import SqlStatements.Yaml.Token

namespace SqlStatements.Yaml

/-- A place where a key may have started. Only a colon tells. -/
structure Candidate where
  position : Nat
  index : Nat
  line : Nat
  column : Nat
  required : Bool

/-- A key outside of flow collections is on one line and has no more than 1024 characters. -/
def Candidate.isStale (c : Candidate) (r : Reader) : Bool :=
  c.line < r.line || c.index + 1024 < r.index

/-- The indentation around a block, or around the value of one of its entries. -/
structure Level where
  margin : Nat
  isBlock : Bool

structure Layout where
  reader : Reader
  /-- The tokens so far, the last one first. -/
  tokens : List Token
  /-- The column from which a text belongs to the innermost level. The entries of a block
  start one column before its margin. -/
  margin : Nat
  levels : List Level
  candidate : Option Candidate
  outer : List (Option Candidate)
  keyAllowed : Bool
  /-- The index where a colon needs no blank after it. -/
  adjacent : Nat

namespace Layout

def start (document : Text) : Layout := ⟨.start document, [], 0, [], none, [], true, 0⟩

def inFlow (l : Layout) : Bool := !l.outer.isEmpty

def inBlock (l : Layout) : Bool := l.levels.head?.any Level.isBlock

def push (l : Layout) (t : Token) : Layout := { l with tokens := t :: l.tokens }

def insert (l : Layout) (position : Nat) (t : Token) : Layout :=
  { l with tokens := l.tokens.insertIdx (l.tokens.length - position) t }

def goTo (l : Layout) (r : Reader) : Layout := { l with reader := r }

def allowKey (l : Layout) (allowed : Bool) : Layout := { l with keyAllowed := allowed }

def propose (l : Layout) : Layout :=
  if l.keyAllowed then
    let r := l.reader
    let required := !l.inFlow && l.margin == r.column + 1 && l.inBlock
    { l with candidate := some ⟨l.tokens.length, r.index, r.line, r.column, required⟩ }
  else l

/-- Gives up the candidate, unless a key is required there. -/
def forget? (l : Layout) : Option Layout :=
  if l.candidate.any Candidate.required then none else some { l with candidate := none }

/-- Leaves levels from the inside while their margin is right of `limit`. -/
def leaveFrom (limit : Nat) (l : Layout) : List Level → Layout
  | [] => { l with levels := [] }
  | level :: around =>
    if limit < l.margin then
      leaveFrom limit
        { l with
          margin := level.margin
          tokens := if level.isBlock then .blockEnd :: l.tokens else l.tokens }
        around
    else { l with levels := level :: around }

/-- Leaves the levels that end before a text at the column `limit - 1`. Flow collections
do not depend on indentation. -/
def leave (l : Layout) (limit : Nat) : Layout :=
  if l.inFlow then l else leaveFrom limit l l.levels

def leaveValuesFrom (l : Layout) : List Level → Layout
  | [] => { l with levels := [] }
  | level :: around =>
    if level.isBlock then { l with levels := level :: around }
    else leaveValuesFrom { l with margin := level.margin } around

def leaveValues (l : Layout) : Layout := leaveValuesFrom l l.levels

/-- Enters a block whose entries start at a column, unless it is open already. The token
that opens it goes after the first `position` ones. -/
def enterBlock (l : Layout) (column position : Nat) (opening : Token) : Layout :=
  if l.inFlow then l
  else
    let l :=
      match l.levels with
      | level :: around =>
        if !level.isBlock && l.margin ≤ column + 1 then
          { l with margin := level.margin, levels := around }
        else l
      | [] => l
    if l.margin ≤ column then
      { l.insert position opening with
        margin := column + 1
        levels := ⟨l.margin, true⟩ :: l.levels }
    else l

def enterValue (l : Layout) : Layout :=
  if !l.inFlow && l.inBlock then
    { l with margin := l.margin + 1, levels := ⟨l.margin, false⟩ :: l.levels }
  else l

/-- Goes to the next token. Outside of flow collections a new line may start a key. -/
def skipGap? (l : Layout) : Option Layout :=
  (l.reader.skipLines? .tokens l.margin).map fun (breaks, r) =>
    (l.goTo r).allowKey (l.keyAllowed || (breaks != 0 && !l.inFlow))

def settle? (l : Layout) : Option Layout :=
  if !l.inFlow && l.candidate.any (Candidate.isStale · l.reader) then l.forget? else some l

def next? (l : Layout) : Option Layout :=
  (l.skipGap?.bind settle?).map fun l => l.leave (l.reader.column + 1)

end Layout
end SqlStatements.Yaml
