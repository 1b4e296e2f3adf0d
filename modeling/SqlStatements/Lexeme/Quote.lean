import SqlStatements.Lexeme.Comment

namespace SqlStatements.Lexeme

/-- The number of symbols through the quote that closes a literal whose opening quote
has been read. The escape takes the symbol after it along, and a doubled quote stands
for one. -/
def closingQuote? [BEq α] (escape quote : α) : List α → Option Nat
  | [] => none
  | [b] => if b == escape then none else if b == quote then some 1 else none
  | b :: c :: rest =>
    if b == escape then (closingQuote? escape quote rest).map (· + 2)
    else if b == quote then
      if c == quote then (closingQuote? escape quote rest).map (· + 2) else some 1
    else (closingQuote? escape quote (c :: rest)).map (· + 1)

/-- A literal between two quotes. One that is never closed is no literal. -/
def quoted? [BEq α] (escape quote : α) : List α → Option Nat
  | [] => none
  | b :: rest => if b == quote then (closingQuote? escape quote rest).map (· + 1) else none

def quotes : Text := ['\x27', '"', '\x60']

def quotedString? (rest : Text) : Option Nat :=
  quotes.findSome? fun quote => quoted? '\\' quote rest

/-- The opening tag of a dollar quote: a word, possibly empty, between two dollar signs. -/
def dollarTag? : Text → Option Text
  | [] => none
  | c :: cs =>
    if c == '$' then
      let word := cs.takeWhile fun d => d.isAlphanum || d == '_'
      if (cs.drop word.length).head? == some '$' then some ('$' :: word ++ ['$']) else none
    else none

/-- A dollar quote runs from its tag through the next occurrence of the same tag. -/
def dollarQuote? (rest : Text) : Except Unclosed (Option Nat) :=
  match dollarTag? rest with
  | none => .ok none
  | some tag =>
    match Text.indexOf? tag (rest.drop tag.length) with
    | some body => .ok (some (tag.length + body + tag.length))
    | none => .error (.dollarQuote tag)

theorem closingQuote?_le [BEq α] {escape quote : α} {rest : List α} {n : Nat}
    (h : closingQuote? escape quote rest = some n) : n ≤ rest.length := by
  fun_induction closingQuote? escape quote rest generalizing n <;>
    simp_all [Option.map_eq_some_iff]
  all_goals grind

theorem fits_quotedString {rest : Text} {n : Nat} (h : quotedString? rest = some n) :
    Fits rest n := by
  obtain ⟨quote, -, hq⟩ := List.exists_of_findSome?_eq_some h
  cases rest with
  | nil => cases hq
  | cons c cs =>
    simp only [quoted?] at hq
    split at hq
    · obtain ⟨m, hm, rfl⟩ := Option.map_eq_some_iff.mp hq
      exact ⟨Nat.succ_pos m, Nat.succ_le_succ (closingQuote?_le hm)⟩
    · cases hq

theorem fits_dollarQuote {rest : Text} {n : Nat} (h : dollarQuote? rest = .ok (some n)) :
    Fits rest n := by
  unfold dollarQuote? at h
  split at h
  · cases h
  · rename_i tag ht
    have hpos : 0 < tag.length := by
      unfold dollarTag? at ht
      grind
    split at h
    · rename_i body hb
      cases h
      have := indexOf?_add_length_le hb
      simp only [List.length_drop] at this
      exact ⟨by omega, by omega⟩
    · cases h

end SqlStatements.Lexeme
