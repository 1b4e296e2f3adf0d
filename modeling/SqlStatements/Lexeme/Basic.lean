import SqlStatements.Text.Blank

namespace SqlStatements.Lexeme

/-- A lexeme of `n` characters can be taken from the front of `rest`. -/
def Fits (rest : Text) (n : Nat) : Prop := 0 < n ∧ n ≤ rest.length

/-- The letters, digits and signs that continue an identifier. -/
def isWordPart (c : Char) : Bool := c.isAlphanum || c == '_' || c == '$'

/-- The length of `literal` if the text starts with it; nothing starts with the empty one. -/
def literal? (literal rest : Text) : Option Nat :=
  if literal.isEmpty then none
  else if literal.isPrefixOf rest then some literal.length
  else none

def identifier? : Text → Option Nat
  | [] => none
  | c :: cs => if c.isAlpha then some ((cs.takeWhile isWordPart).length + 1) else none

def blanks? : Text → Option Nat
  | [] => none
  | c :: cs => if isAsciiBlank c then some ((cs.takeWhile isAsciiBlank).length + 1) else none

def character? : Text → Option Nat
  | [] => none
  | _ :: _ => some 1

theorem fits_literal {literal rest : Text} {n : Nat} (h : literal? literal rest = some n) :
    Fits rest n := by
  unfold literal? at h
  split at h
  · cases h
  · rename_i hne
    split at h
    · rename_i hp
      cases h
      exact ⟨List.length_pos_iff.mpr (by simpa using hne),
        (List.isPrefixOf_iff_prefix.mp hp).length_le⟩
    · cases h

theorem length_takeWhile_le (p : Char → Bool) (t : Text) : (t.takeWhile p).length ≤ t.length :=
  (List.takeWhile_prefix p).length_le

theorem fits_identifier {rest : Text} {n : Nat} (h : identifier? rest = some n) :
    Fits rest n := by
  cases rest with
  | nil => cases h
  | cons c cs =>
    simp only [identifier?] at h
    split at h
    · cases h
      exact ⟨Nat.succ_pos _, Nat.succ_le_succ (length_takeWhile_le _ cs)⟩
    · cases h

theorem fits_blanks {rest : Text} {n : Nat} (h : blanks? rest = some n) : Fits rest n := by
  cases rest with
  | nil => cases h
  | cons c cs =>
    simp only [blanks?] at h
    split at h
    · cases h
      exact ⟨Nat.succ_pos _, Nat.succ_le_succ (length_takeWhile_le _ cs)⟩
    · cases h

theorem fits_character {rest : Text} {n : Nat} (h : character? rest = some n) : Fits rest n := by
  cases rest with
  | nil => cases h
  | cons c cs =>
    cases h
    exact ⟨Nat.one_pos, Nat.succ_le_succ (Nat.zero_le _)⟩

end SqlStatements.Lexeme
