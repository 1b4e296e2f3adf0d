import SqlStatements.Lexeme.Quote
import SqlStatements.Settings.Basic
import SqlStatements.Token.Basic

namespace SqlStatements.Token
open Lexeme

/-- The kind and length of the token at the front of the text. The first matcher that
takes something wins, and at the end of the text nothing is left to take. -/
def classify (s : Settings) (rest : Text) : Except Unclosed (Kind × Nat) :=
  match literal? s.separator rest with
  | some n => .ok (.separator, n)
  | none =>
  match Lexeme.lineComment? s.lineComment rest with
  | some n => .ok (.comment, n)
  | none =>
  match blockComment? s.blockOpen s.blockClose rest with
  | .error why => .error why
  | .ok (some n) => .ok (.comment, n)
  | .ok none =>
  match quotedString? rest with
  | some n => .ok (.quotedString, n)
  | none =>
  match dollarQuote? rest with
  | .error why => .error why
  | .ok (some n) => .ok (.quotedString, n)
  | .ok none =>
  match identifier? rest with
  | some n => .ok (.identifier, n)
  | none =>
  match blanks? rest with
  | some n => .ok (.whitespace, n)
  | none =>
  match character? rest with
  | some n => .ok (.other, n)
  | none => .ok (.eof, 0)

/-- Before the end of the text every token takes at least one character. -/
theorem fits_classify {s : Settings} {rest : Text} {kind : Kind} {n : Nat} (hne : rest ≠ [])
    (h : classify s rest = .ok (kind, n)) : Fits rest n := by
  unfold classify at h
  split at h
  · rename_i m hm
    cases h
    exact fits_literal hm
  split at h
  · rename_i m hm
    cases h
    exact fits_lineComment hm
  split at h
  · cases h
  · rename_i m hm
    cases h
    exact fits_blockComment hm
  split at h
  · rename_i m hm
    cases h
    exact fits_quotedString hm
  split at h
  · cases h
  · rename_i m hm
    cases h
    exact fits_dollarQuote hm
  split at h
  · rename_i m hm
    cases h
    exact fits_identifier hm
  split at h
  · rename_i m hm
    cases h
    exact fits_blanks hm
  split at h
  · rename_i m hm
    cases h
    exact fits_character hm
  · rename_i hm
    cases rest with
    | nil => exact absurd rfl hne
    | cons c cs => cases hm

/-- Only the end of the text is empty. -/
theorem classify_nil (s : Settings) : classify s [] = .ok (.eof, 0) := by
  have h (literal : Text) : literal? literal [] = none := by
    cases literal <;> rfl
  have hq : quotedString? [] = none := rfl
  simp [classify, h, hq, Lexeme.lineComment?, blockComment?, dollarQuote?, dollarTag?,
    identifier?, blanks?, character?]

/-- No token before the end of the text is the empty one. -/
theorem kind_ne_eof_of_classify {s : Settings} {rest : Text} {kind : Kind} {n : Nat}
    (hne : rest ≠ []) (h : classify s rest = .ok (kind, n)) : kind ≠ .eof := by
  intro he
  subst he
  unfold classify at h
  repeat' split at h
  all_goals cases h
  rename_i hm
  cases rest with
  | nil => exact hne rfl
  | cons c cs => cases hm

end SqlStatements.Token
