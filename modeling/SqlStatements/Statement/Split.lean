import SqlStatements.Logged
import SqlStatements.Statement.Assembly
import SqlStatements.Token.Cursor

namespace SqlStatements

/-- Either the text gets shorter, or the assembly has one reading of its end less to do. -/
theorem Cursor.assemble_decreases {c d : Cursor} {a : Assembly} {t : Token}
    (hf : a.mode ≠ .finished) (h : c.nextToken = (.ok t, d)) :
    4 * d.remaining.length + (a.read t).mode.endReads <
      4 * c.remaining.length + a.mode.endReads := by
  by_cases hr : c.remaining = []
  · rw [Cursor.nextToken_atEnd hr] at h
    cases h
    exact Nat.add_lt_add_left (Assembly.endReads_read_lt hf rfl) _
  · have hlt := (Cursor.nextToken_moves hr h).1
    have hle := (a.read t).mode.endReads_le
    omega

/-- Reads tokens until the assembly is finished or a token cannot be read. -/
def Cursor.assemble (c : Cursor) (a : Assembly) : Logged Failure (List Text) :=
  if _hf : a.mode = .finished then ⟨a.events, .ok a.statements⟩
  else
    match _h : c.nextToken with
    | (.error e, _) => ⟨a.events, .error e⟩
    | (.ok t, d) => d.assemble (a.read t)
termination_by 4 * c.remaining.length + a.mode.endReads
decreasing_by exact Cursor.assemble_decreases _hf _h

def Cursor.split (c : Cursor) : Logged Failure (List Text) := c.assemble .empty

/-- The statements of a script under settings that are taken as they are. -/
def splitUnchecked (settings : Settings) (script : Text) : Logged Failure (List Text) :=
  (Cursor.start settings script).split

def split (settings : Settings) (script : Text) : Logged Failure (List Text) := do
  Logged.ofExcept (settings.validate.mapError Failure.settings)
  let statements ← splitUnchecked settings script
  Logged.log (.scriptSplit settings.resource settings.separator statements.length)
  return statements

def splitWith (resource script separator lineComment blockOpen blockClose : Text) :
    Logged Failure (List Text) := do
  let settings ← Logged.ofExcept
    ((Settings.mk resource separator lineComment blockOpen blockClose).checked.mapError
      Failure.settings)
  split settings script

end SqlStatements
