import SqlStatements.Proofs.Lexemes
import SqlStatements.Token.Classify

namespace SqlStatements.Token
open Lexeme

/-- No delimiter of the settings stands at the front of the text. -/
structure Undelimited (s : Settings) (rest : Text) : Prop where
  separator : literal? s.separator rest = none
  line : lineComment? s.lineComment rest = none
  block : blockComment? s.blockOpen s.blockClose rest = .ok none

structure Unquoted (s : Settings) (rest : Text) : Prop extends Undelimited s rest where
  quote : quotedString? rest = none
  dollar : dollarQuote? rest = .ok none

/-- The ways a text can begin, each with the ways before it ruled out. -/
inductive Classified (s : Settings) (rest : Text) : Kind → Nat → Prop where
  | separator {n : Nat} : literal? s.separator rest = some n → Classified s rest .separator n
  | line {n : Nat} : literal? s.separator rest = none →
      lineComment? s.lineComment rest = some n → Classified s rest .comment n
  | block {n : Nat} : literal? s.separator rest = none →
      lineComment? s.lineComment rest = none →
      blockComment? s.blockOpen s.blockClose rest = .ok (some n) → Classified s rest .comment n
  | quote {n : Nat} : Undelimited s rest → quotedString? rest = some n →
      Classified s rest .quotedString n
  | dollar {n : Nat} : Undelimited s rest → quotedString? rest = none →
      dollarQuote? rest = .ok (some n) → Classified s rest .quotedString n
  | identifier {n : Nat} : Unquoted s rest → identifier? rest = some n →
      Classified s rest .identifier n
  | blanks {n : Nat} : Unquoted s rest → identifier? rest = none → blanks? rest = some n →
      Classified s rest .whitespace n
  | character {n : Nat} : Unquoted s rest → identifier? rest = none → blanks? rest = none →
      character? rest = some n → Classified s rest .other n
  | eof : rest = [] → Classified s rest .eof 0

theorem classify_eq_ok_iff {s : Settings} {rest : Text} {kind : Kind} {n : Nat} :
    classify s rest = .ok (kind, n) ↔ Classified s rest kind n := by
  constructor
  · intro h
    unfold classify at h
    split at h
    · rename_i hs
      cases h
      exact .separator hs
    rename_i hs
    split at h
    · rename_i hl
      cases h
      exact .line hs hl
    rename_i hl
    split at h
    · cases h
    · rename_i hb
      cases h
      exact .block hs hl hb
    rename_i hb
    have hd : Undelimited s rest := ⟨hs, hl, hb⟩
    split at h
    · rename_i hq
      cases h
      exact .quote hd hq
    rename_i hq
    split at h
    · cases h
    · rename_i ht
      cases h
      exact .dollar hd hq ht
    rename_i ht
    have hu : Unquoted s rest := ⟨hd, hq, ht⟩
    split at h
    · rename_i hi
      cases h
      exact .identifier hu hi
    rename_i hi
    split at h
    · rename_i hw
      cases h
      exact .blanks hu hi hw
    rename_i hw
    split at h
    · rename_i hc
      cases h
      exact .character hu hi hw hc
    · rename_i hc
      cases h
      cases rest with
      | nil => exact .eof rfl
      | cons c cs => cases hc
  · intro h
    cases h with
    | separator hs => simp [classify, hs]
    | line hs hl => simp [classify, hs, hl]
    | block hs hl hb => simp [classify, hs, hl, hb]
    | quote hd hq => simp [classify, hd.separator, hd.line, hd.block, hq]
    | dollar hd hq ht => simp [classify, hd.separator, hd.line, hd.block, hq, ht]
    | identifier hu hi =>
      simp [classify, hu.separator, hu.line, hu.block, hu.quote, hu.dollar, hi]
    | blanks hu hi hw =>
      simp [classify, hu.separator, hu.line, hu.block, hu.quote, hu.dollar, hi, hw]
    | character hu hi hw hc =>
      simp [classify, hu.separator, hu.line, hu.block, hu.quote, hu.dollar, hi, hw, hc]
    | eof he => rw [he, classify_nil]

end SqlStatements.Token
