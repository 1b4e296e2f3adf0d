import SqlStatements.Lexeme.Basic

namespace SqlStatements.Lexeme

inductive Unclosed where
  | blockComment
  | dollarQuote (tag : Text)
deriving DecidableEq

/-- The length of the first line and of all the line breaks right after it. -/
def lineLength (t : Text) : Nat :=
  (t.takeWhile fun c => !isLineBreak c).length +
    ((t.dropWhile fun c => !isLineBreak c).takeWhile isLineBreak).length

/-- A line comment runs from `opener` through all the line breaks that end it. -/
def lineComment? (opener rest : Text) : Option Nat :=
  (literal? opener rest).map fun start => start + lineLength (rest.drop start)

/-- A block comment runs from `opener` through the next `closer`. -/
def blockComment? (opener closer rest : Text) : Except Unclosed (Option Nat) :=
  match literal? opener rest with
  | none => .ok none
  | some start =>
    match Text.indexOf? closer (rest.drop start) with
    | some body => .ok (some (start + body + closer.length))
    | none => .error .blockComment

theorem lineLength_le (t : Text) : lineLength t ≤ t.length := by
  have hb := length_takeWhile_le isLineBreak (t.dropWhile fun c => !isLineBreak c)
  have hs := congrArg List.length
    (List.takeWhile_append_dropWhile (p := fun c => !isLineBreak c) (l := t))
  rw [List.length_append] at hs
  unfold lineLength
  omega

theorem fits_lineComment {opener rest : Text} {n : Nat} (h : lineComment? opener rest = some n) :
    Fits rest n := by
  obtain ⟨start, hs, rfl⟩ := Option.map_eq_some_iff.mp h
  obtain ⟨hp, hl⟩ := fits_literal hs
  have hb := lineLength_le (rest.drop start)
  simp only [List.length_drop] at hb
  exact ⟨by omega, by omega⟩

/-- What is found lies wholly inside the text. -/
theorem indexOf?_add_length_le {wanted text : Text} {n : Nat}
    (h : Text.indexOf? wanted text = some n) : n + wanted.length ≤ text.length := by
  induction text generalizing n with
  | nil =>
    simp only [Text.indexOf?] at h
    split at h
    · rename_i he
      cases h
      simp [List.isEmpty_iff.mp he]
    · cases h
  | cons c cs ih =>
    simp only [Text.indexOf?] at h
    split at h
    · rename_i hp
      cases h
      simpa using (List.isPrefixOf_iff_prefix.mp hp).length_le
    · obtain ⟨m, hm, rfl⟩ := Option.map_eq_some_iff.mp h
      have := ih hm
      simp only [List.length_cons]
      omega

theorem fits_blockComment {opener closer rest : Text} {n : Nat}
    (h : blockComment? opener closer rest = .ok (some n)) : Fits rest n := by
  unfold blockComment? at h
  split at h
  · cases h
  · rename_i start hs
    obtain ⟨hp, hl⟩ := fits_literal hs
    split at h
    · rename_i body hb
      cases h
      have := indexOf?_add_length_le hb
      simp only [List.length_drop] at this
      exact ⟨by omega, by omega⟩
    · cases h

end SqlStatements.Lexeme
