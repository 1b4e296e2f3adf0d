import SqlStatements.Text.Hex
import SqlStatements.Text.Quoted

namespace SqlStatements

namespace Hex

theorem digit?_digitChar {n : Nat} (h : n < 16) : digit? n.digitChar = some n := by
  decide +revert

theorem character?_toNat (c : Char) : character? c.toNat = some c := by
  have hvalid : c.toNat.isValidChar := c.valid
  rw [character?, if_pos hvalid, Char.ofNat_toNat]

/-- The digits of a number are digits. -/
theorem isSome_digit?_of_mem_toDigits {n : Nat} {c : Char} (h : c ∈ Nat.toDigits 16 n) :
    (digit? c).isSome = true := by
  induction n using Nat.strongRecOn with
  | ind n ih =>
    rw [Nat.toDigits_eq_if (by decide)] at h
    split at h
    · rename_i hn
      rw [List.mem_singleton.mp h, digit?_digitChar hn]
      rfl
    · rename_i hn
      rcases List.mem_append.mp h with hfront | hlast
      · exact ih (n / 16) (by omega) hfront
      · rw [List.mem_singleton.mp hlast, digit?_digitChar (Nat.mod_lt n (by decide))]
        rfl

end Hex

namespace Text

def escaped? : Char → Option Char
  | '"' => some '"'
  | '\\' => some '\\'
  | 't' => some '\t'
  | 'n' => some '\n'
  | 'r' => some '\r'
  | '0' => some '\x00'
  | _ => none

/-- Where a reader of quoted text stands: between two characters, behind a backslash, behind the `u`
of a number, or inside of the number. -/
inductive Unquoting where
  | plain
  | escape
  | brace
  | number (code : Nat)

/-- The text up to the closing quote, behind which nothing may follow. -/
def unquotedFrom? : Unquoting → Text → Option Text
  | _, [] => none
  | .plain, c :: rest =>
    if c = '"' then if rest = [] then some [] else none
    else if c = '\\' then unquotedFrom? .escape rest
    else (unquotedFrom? .plain rest).map (c :: ·)
  | .escape, c :: rest =>
    if c = 'u' then unquotedFrom? .brace rest
    else do return (← escaped? c) :: (← unquotedFrom? .plain rest)
  | .brace, c :: rest => if c = '\x7b' then unquotedFrom? (.number 0) rest else none
  | .number code, c :: rest =>
    if c = '\x7d' then do return (← Hex.character? code) :: (← unquotedFrom? .plain rest)
    else do unquotedFrom? (.number (16 * code + (← Hex.digit? c))) rest

def unquoted? (t : Text) : Option Text :=
  if t.head? = some '"' then unquotedFrom? .plain t.tail else none

/-- One more digit is read. -/
theorem unquotedFrom?_digit (code : Nat) {d : Nat} (hd : d < 16) (rest : Text) :
    unquotedFrom? (.number code) (d.digitChar :: rest) =
      unquotedFrom? (.number (16 * code + d)) rest := by
  have hbrace : d.digitChar ≠ '\x7d' := Nat.digitChar_ne _ (by decide)
  simp [unquotedFrom?, hbrace, Hex.digit?_digitChar hd]

theorem unquotedFrom?_digits (n : Nat) (rest : Text) :
    unquotedFrom? (.number 0) (Nat.toDigits 16 n ++ rest) = unquotedFrom? (.number n) rest := by
  induction n using Nat.strongRecOn generalizing rest with
  | ind n ih =>
    rw [Nat.toDigits_eq_if (by decide)]
    split
    · rename_i hn
      rw [List.singleton_append, unquotedFrom?_digit 0 hn, Nat.mul_zero, Nat.zero_add]
    · rename_i hn
      rw [List.append_assoc, ih (n / 16) (by omega), List.singleton_append,
        unquotedFrom?_digit _ (Nat.mod_lt n (by decide)), Nat.div_add_mod]

/-- A character is quoted by a letter behind a backslash, as itself or by its number. -/
theorem quotedChar_cases (c : Char) :
    (∃ letter, escaped? letter = some c ∧ quotedChar c = ['\\', letter]) ∨
      (c ≠ '"' ∧ c ≠ '\\' ∧ c ≠ '\n' ∧ quotedChar c = [c]) ∨
        quotedChar c = ['\\', 'u', '\x7b'] ++ Nat.toDigits 16 c.toNat ++ ['\x7d'] := by
  by_cases hquote : c = '"'
  · subst hquote
    exact .inl ⟨'"', rfl, rfl⟩
  by_cases hescape : c = '\\'
  · subst hescape
    exact .inl ⟨'\\', rfl, rfl⟩
  by_cases htab : c = '\t'
  · subst htab
    exact .inl ⟨'t', rfl, rfl⟩
  by_cases hfeed : c = '\n'
  · subst hfeed
    exact .inl ⟨'n', rfl, rfl⟩
  by_cases hreturn : c = '\r'
  · subst hreturn
    exact .inl ⟨'r', rfl, rfl⟩
  by_cases hnull : c = '\x00'
  · subst hnull
    exact .inl ⟨'0', rfl, rfl⟩
  right
  rw [quotedChar, if_neg hquote, if_neg hescape, if_neg htab, if_neg hfeed, if_neg hreturn,
    if_neg hnull]
  by_cases hshown : isPrintable c = true
  · rw [if_pos hshown]
    exact .inl ⟨hquote, hescape, hfeed, rfl⟩
  · rw [if_neg hshown]
    exact .inr rfl

/-- A character is read back from the way it is quoted. -/
theorem unquotedFrom?_quotedChar (c : Char) (rest : Text) :
    unquotedFrom? .plain (quotedChar c ++ rest) = (unquotedFrom? .plain rest).map (c :: ·) := by
  rcases quotedChar_cases c with ⟨letter, hletter, he⟩ | ⟨hquote, hescape, -, he⟩ | he
  · have hnumber : letter ≠ 'u' := by
      rintro rfl
      cases hletter
    rw [he]
    cases hrest : unquotedFrom? .plain rest <;> simp [unquotedFrom?, hnumber, hletter, hrest]
  · rw [he]
    simp [unquotedFrom?, hquote, hescape]
  · have hnumber : unquotedFrom? .plain (quotedChar c ++ rest) =
        unquotedFrom? (.number 0) (Nat.toDigits 16 c.toNat ++ '\x7d' :: rest) := by
      rw [he]
      simp [unquotedFrom?]
    rw [hnumber, unquotedFrom?_digits]
    cases hrest : unquotedFrom? .plain rest <;>
      simp [unquotedFrom?, Hex.character?_toNat, hrest]

theorem unquoted?_quoted (t : Text) : unquoted? t.quoted = some t := by
  have hfrom : unquotedFrom? .plain (t.flatMap quotedChar ++ ['"']) = some t := by
    induction t with
    | nil => rfl
    | cons c t ih =>
      rw [List.flatMap_cons, List.append_assoc, unquotedFrom?_quotedChar, ih]
      rfl
  exact hfrom

theorem lineFeed_notMem_quotedChar (c : Char) : '\n' ∉ quotedChar c := by
  rcases quotedChar_cases c with ⟨letter, hletter, he⟩ | ⟨-, -, hfeed, he⟩ | he
  · have hfeed : letter ≠ '\n' := by
      rintro rfl
      cases hletter
    simp [he, Ne.symm hfeed]
  · simp [he, Ne.symm hfeed]
  · have hdigits : '\n' ∉ Nat.toDigits 16 c.toNat := fun hm =>
      absurd (Hex.isSome_digit?_of_mem_toDigits hm) (by decide)
    simp [he, hdigits]

/-- Quoted text stands on one line. -/
theorem lineFeed_notMem_quoted (t : Text) : '\n' ∉ t.quoted := by
  simp [quoted, lineFeed_notMem_quotedChar]

end Text
end SqlStatements
