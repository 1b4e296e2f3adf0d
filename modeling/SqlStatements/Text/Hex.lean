import SqlStatements.Text.Basic

namespace SqlStatements.Hex

def digit? (c : Char) : Option Nat :=
  if c.isDigit then some (c.toNat - 48)
  else if 'a' ≤ c ∧ c ≤ 'f' then some (c.toNat - 87)
  else if 'A' ≤ c ∧ c ≤ 'F' then some (c.toNat - 55)
  else none

def number? (count : Nat) (t : Text) : Option Nat :=
  if t.length < count then none
  else (t.take count).foldl (fun value c => do return (← value) * 16 + (← digit? c)) (some 0)

def character? (code : Nat) : Option Char :=
  if code.isValidChar then some (Char.ofNat code) else none

end SqlStatements.Hex
