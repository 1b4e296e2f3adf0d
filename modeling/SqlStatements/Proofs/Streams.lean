import SqlStatements.Proofs.Classified
import SqlStatements.Token.Stream

namespace SqlStatements

/-- The only blanks of ASCII are the space and those before it. -/
theorem isBlank_eq_false_of_between {c : Char} (hl : 0x20 < c.toNat) (hu : c.toNat < 0x85) :
    isBlank c = false := by
  have ht : ∀ r ∈ whiteSpace, r.2 ≤ 0x20 ∨ 0x85 ≤ r.1 := by decide
  apply List.any_eq_false.mpr
  intro r hr
  have := ht r hr
  simp only [Bool.and_eq_true, decide_eq_true_eq]
  omega

theorem isBlank_of_isLineBreak {c : Char} (h : isLineBreak c = true) : isBlank c = true :=
  isBlank_of_isAsciiBlank (isAsciiBlank_of_isLineBreak h)

theorem isAsciiBlank_eq_false {c : Char} (h : isBlank c = false) : isAsciiBlank c = false := by
  cases ha : isAsciiBlank c with
  | false => rfl
  | true =>
    rw [isBlank_of_isAsciiBlank ha] at h
    cases h

theorem toNat_of_isWordPart {c : Char} (h : Lexeme.isWordPart c = true) :
    0x20 < c.toNat ∧ c.toNat < 0x80 := by
  simp only [Lexeme.isWordPart, Bool.or_eq_true, beq_iff_eq] at h
  rcases h with (h | rfl) | rfl
  · have hranges : (decide (65 ≤ c.val ∧ c.val ≤ 90) ||
        (decide (97 ≤ c.val) && decide (c.val ≤ 122)) ||
          (decide (48 ≤ c.val) && decide (c.val ≤ 57))) = true := h
    have hv : (65 ≤ c.val ∧ c.val ≤ 90 ∨ 97 ≤ c.val ∧ c.val ≤ 122) ∨ 48 ≤ c.val ∧ c.val ≤ 57 := by
      simpa using hranges
    have hc : c.toNat = c.val.toNat := rfl
    simp only [UInt32.le_iff_toNat_le, UInt32.reduceToNat] at hv
    omega
  · decide
  · decide

theorem isBlank_of_isWordPart {c : Char} (h : Lexeme.isWordPart c = true) : isBlank c = false := by
  obtain ⟨hl, hu⟩ := toNat_of_isWordPart h
  exact isBlank_eq_false_of_between hl (by omega)

theorem isWordPart_eq_false_of_isAsciiBlank {c : Char} (h : isAsciiBlank c = true) :
    Lexeme.isWordPart c = false := by
  cases hw : Lexeme.isWordPart c with
  | false => rfl
  | true =>
    have := isBlank_of_isWordPart hw
    rw [isBlank_of_isAsciiBlank h] at this
    cases this

theorem isWordPart_of_isAlpha {c : Char} (h : c.isAlpha = true) : Lexeme.isWordPart c = true := by
  simp [Lexeme.isWordPart, Char.isAlphanum, h]

/-- Lower case makes a capital letter a small one and leaves any other character. -/
theorem toLower_cases (c : Char) :
    c.isUpper = false ∧ c.toLower = c ∨
      c.isUpper = true ∧ c.toLower.isUpper = false ∧ c.toLower.isLower = true := by
  by_cases h : c.val ≥ 'A'.val ∧ c.val ≤ 'Z'.val
  · have hsum : c.toLower.val.toNat = c.val.toNat + 32 := by
      have hle := UInt32.le_iff_toNat_le.mp h.2
      unfold Char.toLower
      rw [dif_pos h, UInt32.toNat_add]
      exact Nat.mod_eq_of_lt (Nat.lt_of_le_of_lt (Nat.add_le_add_right hle 32) (by decide))
    have hfirst : 'a'.val ≤ c.toLower.val := by
      rw [UInt32.le_iff_toNat_le, hsum]
      exact Nat.add_le_add_right (UInt32.le_iff_toNat_le.mp h.1) 32
    have hlast : c.toLower.val ≤ 'z'.val := by
      rw [UInt32.le_iff_toNat_le, hsum]
      exact Nat.add_le_add_right (UInt32.le_iff_toNat_le.mp h.2) 32
    have hsmall : ¬ (c.toLower.val ≥ 'A'.val ∧ c.toLower.val ≤ 'Z'.val) := by
      intro hcapital
      exact absurd (UInt32.le_trans hfirst hcapital.2) (by decide)
    exact .inr ⟨decide_eq_true h, decide_eq_false hsmall,
      Bool.and_eq_true_iff.mpr ⟨decide_eq_true hfirst, decide_eq_true hlast⟩⟩
  · exact .inl ⟨decide_eq_false h, dif_neg h⟩

theorem isAlpha_toLower (c : Char) : c.toLower.isAlpha = c.isAlpha := by
  rcases toLower_cases c with ⟨-, hsame⟩ | ⟨hupper, -, hlower⟩
  · rw [hsame]
  · have hletter (d : Char) : d.isAlpha = (d.isUpper || d.isLower) := rfl
    rw [hletter, hletter, hupper, hlower, Bool.or_true, Bool.true_or]

theorem toLower_toLower (c : Char) : c.toLower.toLower = c.toLower := by
  rcases toLower_cases c with ⟨-, hsame⟩ | ⟨-, hsmall, -⟩
  · rw [hsame, hsame]
  · rcases toLower_cases c.toLower with ⟨-, hsame⟩ | ⟨hupper, -⟩
    · exact hsame
    · cases hsmall.symm.trans hupper

theorem isBlank_of_mem_quotes {c : Char} (h : c ∈ Lexeme.quotes) : isBlank c = false := by
  simp only [Lexeme.quotes, List.mem_cons, List.not_mem_nil, or_false] at h
  rcases h with rfl | rfl | rfl <;> decide

namespace Token
open Lexeme

/-- The text is the token `t` and then `w`. -/
def Leads (s : Settings) (t : Token) (w : Text) : Prop :=
  t.text ≠ [] ∧ Classified s (t.text ++ w) t.kind t.text.length

/-- Each of the tokens is what their whole text begins with from there on. -/
def Chain (s : Settings) : List Token → Prop
  | [] => True
  | t :: ts => Leads s t (ts.flatMap text) ∧ Chain s ts

def isSignificant (t : Token) : Bool :=
  t.kind == .identifier || t.kind == .other || t.kind == .quotedString

def content (t : Token) : Kind × Text := (t.kind, t.text)

theorem Chain.drop {s : Settings} {ts us : List Token} (h : Chain s (ts ++ us)) : Chain s us := by
  induction ts with
  | nil => exact h
  | cons t ts ih => exact ih h.2

theorem Chain.leads {s : Settings} {ts us : List Token} {t : Token}
    (h : Chain s (ts ++ t :: us)) : Leads s t (us.flatMap text) :=
  h.drop.1

theorem Leads.isEof {s : Settings} {t : Token} {w : Text} (h : Leads s t w) : t.isEof = false := by
  have hk := kind_ne_eof_of_classify (by simp [h.1]) (classify_eq_ok_iff.mpr h.2)
  simpa [Token.isEof] using hk

theorem Chain.exists_leads {s : Settings} {ts : List Token} (h : Chain s ts) :
    ∀ t ∈ ts, ∃ w, Leads s t w := by
  intro t ht
  obtain ⟨before, after, rfl⟩ := List.append_of_mem ht
  exact ⟨_, h.leads⟩

theorem Chain.isEof {s : Settings} {ts : List Token} (h : Chain s ts) :
    ∀ t ∈ ts, t.isEof = false := by
  intro t ht
  obtain ⟨w, hlead⟩ := h.exists_leads t ht
  exact hlead.isEof

theorem kind_of_isKeyword {t : Token} {word : Text} (h : t.isKeyword word = true) :
    t.kind = .identifier := by
  simp only [isKeyword, Bool.and_eq_true, beq_iff_eq] at h
  exact h.1

theorem isTrivia_eq_false_of_isSignificant {t : Token} (h : t.isSignificant = true) :
    t.isTrivia = false := by
  obtain ⟨kind, text, start⟩ := t
  cases kind <;> first | rfl | cases h

theorem isEof_eq_false_of_isSignificant {t : Token} (h : t.isSignificant = true) :
    t.isEof = false := by
  obtain ⟨kind, text, start⟩ := t
  cases kind <;> first | rfl | cases h

theorem Leads.nonblank_of_identifier {s : Settings} {t : Token} {w : Text} (h : Leads s t w)
    (hk : t.kind = .identifier) : ∀ c ∈ t.text, isBlank c = false := by
  obtain ⟨kind, x, start⟩ := t
  obtain ⟨hne, hc⟩ := h
  dsimp only at hk hne hc ⊢
  subst hk
  intro d hd
  apply isBlank_of_isWordPart
  cases hc with
  | identifier _ hi =>
    obtain ⟨c, cs, rfl, hc, hcs, -⟩ := identifier?_append_iff.mp hi
    rcases List.mem_cons.mp hd with rfl | hd
    · exact isWordPart_of_isAlpha hc
    · exact hcs d hd

theorem Leads.text_of_separator {s : Settings} {t : Token} {w : Text} (h : Leads s t w)
    (hk : t.kind = .separator) : t.text = s.separator := by
  obtain ⟨kind, x, start⟩ := t
  dsimp only at hk
  subst hk
  cases h.2 with
  | separator hs => exact (literal?_append_iff.mp hs).2

def semicolon : Token := ⟨.separator, [';'], 0⟩

theorem leads_semicolon (w : Text) : Leads .standard semicolon w :=
  ⟨by simp [semicolon], .separator (literal?_append_iff.mpr ⟨by decide, rfl⟩)⟩

/-- A significant token is a single character, or it has no blank at its two ends. -/
theorem Leads.edges {s : Settings} {t : Token} {w : Text} (h : Leads s t w)
    (hs : t.isSignificant = true) :
    (∃ c, t.text = [c] ∧ isAsciiBlank c = false) ∨
      (∃ c ∈ t.text.head?, isBlank c = false) ∧ ∃ c ∈ t.text.getLast?, isBlank c = false := by
  obtain ⟨kind, x, start⟩ := t
  obtain ⟨hne, hc⟩ := h
  dsimp only at hne hc ⊢
  cases kind with
  | quotedString =>
    right
    cases hc with
    | quote _ hq =>
      obtain ⟨q, hm, b, rfl, hb, -⟩ := quotedString?_append_iff.mp hq
      have hl := getLast?_of_closingQuote? hb
      refine ⟨⟨q, rfl, isBlank_of_mem_quotes hm⟩, q, ?_, isBlank_of_mem_quotes hm⟩
      simp [List.getLast?_cons, hl]
    | dollar _ _ hd =>
      obtain ⟨tag, body, n, ⟨word, -, rfl⟩, rfl, hn, hl⟩ := dollarQuote?_append_iff.mp hd
      obtain ⟨front, rfl⟩ := suffix_of_indexOf? hn hl
      have he : '$' :: word ++ ['$'] ++ (front ++ ('$' :: word ++ ['$'])) =
          ('$' :: word ++ ['$'] ++ front ++ '$' :: word) ++ ['$'] := by simp
      refine ⟨⟨'$', rfl, by decide⟩, '$', ?_, by decide⟩
      rw [he]
      exact List.getLast?_concat
  | identifier =>
    right
    have hw := Leads.nonblank_of_identifier (t := ⟨.identifier, x, start⟩) ⟨hne, hc⟩ rfl
    refine ⟨⟨x.head hne, List.head?_eq_some_head hne, hw _ (List.head_mem hne)⟩, x.getLast hne, ?_,
      hw _ (List.getLast_mem hne)⟩
    exact List.getLast?_eq_some_getLast hne
  | other =>
    left
    cases hc with
    | character _ _ hb hc =>
      obtain ⟨c, rfl⟩ := character?_append_iff.mp hc
      exact ⟨c, rfl, blanks?_cons_eq_none_iff.mp hb⟩
  | separator => cases hs
  | comment => cases hs
  | whitespace => cases hs
  | eof => cases hs

/-- A significant token neither begins nor ends with a blank of ASCII. -/
theorem Leads.solid_ends {s : Settings} {t : Token} {w : Text} (h : Leads s t w)
    (hs : t.isSignificant = true) :
    (∃ c ∈ t.text.head?, isAsciiBlank c = false) ∧
      ∃ c ∈ t.text.getLast?, isAsciiBlank c = false := by
  rcases h.edges hs with ⟨c, hc, hb⟩ | ⟨⟨c, hc, hb⟩, d, hd, hb'⟩
  · exact ⟨⟨c, by simp [hc], hb⟩, c, by simp [hc], hb⟩
  · exact ⟨⟨c, hc, isAsciiBlank_eq_false hb⟩, d, hd, isAsciiBlank_eq_false hb'⟩

theorem Leads.solid {s : Settings} {t : Token} {w : Text} (h : Leads s t w)
    (hs : t.isSignificant = true) : ∃ c ∈ t.text.getLast?, isAsciiBlank c = false :=
  (h.solid_ends hs).2

end Token

namespace TokenStream

theorem read_nil (s : Settings) (start : Nat) : read s start [] = ⟨[], none⟩ := by
  rw [read]

theorem read_of_error {s : Settings} {rest : Text} {why : Lexeme.Unclosed} (start : Nat)
    (h : Token.classify s rest = .error why) : read s start rest = ⟨[], some why⟩ := by
  cases rest with
  | nil => rw [Token.classify_nil] at h; cases h
  | cons c cs =>
    rw [read]
    split
    · rename_i hw
      rw [h] at hw
      cases hw
      rfl
    · rename_i hk
      rw [h] at hk
      cases hk

/-- The first token, and the stream of what is left behind it. -/
theorem read_of_ok {s : Settings} {rest : Text} {kind : Token.Kind} {n : Nat} (start : Nat)
    (hne : rest ≠ []) (h : Token.classify s rest = .ok (kind, n)) :
    read s start rest =
      ⟨⟨kind, rest.take n, start⟩ ::
          (read s (start + Text.byteSize (rest.take n)) (rest.drop n)).tokens,
        (read s (start + Text.byteSize (rest.take n)) (rest.drop n)).unclosed⟩ := by
  cases rest with
  | nil => exact absurd rfl hne
  | cons c cs =>
    rw [read]
    split
    · rename_i hw
      rw [h] at hw
      cases hw
    · rename_i hk
      rw [h] at hk
      cases hk
      rfl

/-- A text is empty, begins with an opener that is never closed, or begins with a token. -/
theorem text_cases (s : Settings) (w : Text) :
    w = [] ∨ (∃ why, Token.classify s w = .error why) ∨
      ∃ kind x v, w = x ++ v ∧ ∀ start, Token.Leads s ⟨kind, x, start⟩ v := by
  by_cases hne : w = []
  · exact .inl hne
  cases hc : Token.classify s w with
  | error why => exact .inr (.inl ⟨why, rfl⟩)
  | ok found =>
    obtain ⟨kind, n⟩ := found
    obtain ⟨hp, hl⟩ := Token.fits_classify hne hc
    refine .inr (.inr ⟨kind, w.take n, w.drop n, (List.take_append_drop n w).symm, ?_⟩)
    intro start
    refine ⟨?_, ?_⟩
    · rw [ne_eq, List.take_eq_nil_iff]
      rintro (hz | hz)
      · omega
      · exact hne hz
    · dsimp only
      rw [List.take_append_drop, List.length_take, Nat.min_eq_left hl]
      exact Token.classify_eq_ok_iff.mp hc

/-- Induction along the tokens of a text. -/
theorem text_induction {s : Settings} {motive : Text → Prop} (nil : motive [])
    (unclosed : ∀ w why, Token.classify s w = .error why → motive w)
    (token : ∀ kind x v, (∀ start, Token.Leads s ⟨kind, x, start⟩ v) → motive v → motive (x ++ v))
    (w : Text) : motive w := by
  generalize hn : w.length = n
  induction n using Nat.strongRecOn generalizing w with
  | ind n ih =>
    rcases text_cases s w with rfl | ⟨why, hw⟩ | ⟨kind, x, v, rfl, hx⟩
    · exact nil
    · exact unclosed w why hw
    · have hpos := List.length_pos_iff.mpr (hx 0).1
      refine token kind x v hx (ih v.length ?_ v rfl)
      rw [List.length_append] at hn
      dsimp only at hpos
      omega

/-- The stream of a text goes on behind its first token. -/
theorem read_of_leads {s : Settings} {t : Token} {w : Text} (h : Token.Leads s t w) (start : Nat) :
    read s start (t.text ++ w) =
      ⟨⟨t.kind, t.text, start⟩ :: (read s (start + Text.byteSize t.text) w).tokens,
        (read s (start + Text.byteSize t.text) w).unclosed⟩ := by
  rw [read_of_ok start (by simp [h.1]) (Token.classify_eq_ok_iff.mpr h.2), List.take_left,
    List.drop_left]

/-- A token starts where the text of those before it ends. -/
theorem start_of_read {s : Settings} {start : Nat} {rest : Text} {before after : List Token}
    {t : Token} (h : (read s start rest).tokens = before ++ t :: after) :
    t.start = start + Text.byteSize (before.flatMap Token.text) := by
  induction before generalizing start rest with
  | nil =>
    rcases text_cases s rest with rfl | ⟨why, hw⟩ | ⟨kind, x, v, rfl, hx⟩
    · rw [read_nil] at h
      cases h
    · rw [read_of_error start hw] at h
      cases h
    · rw [read_of_leads (hx start) start] at h
      cases h
      rfl
  | cons u before ih =>
    rcases text_cases s rest with rfl | ⟨why, hw⟩ | ⟨kind, x, v, rfl, hx⟩
    · rw [read_nil] at h
      cases h
    · rw [read_of_error start hw] at h
      cases h
    · rw [read_of_leads (hx start) start] at h
      obtain ⟨rfl, htail⟩ := List.cons.inj h
      rw [ih htail, List.flatMap_cons, Text.byteSize_append, Nat.add_assoc]

/-- A stream that ends with its text is a chain of tokens that make up the text. -/
theorem chain_read {s : Settings} {start : Nat} {rest : Text}
    (h : (read s start rest).unclosed = none) :
    Token.Chain s (read s start rest).tokens ∧ (read s start rest).text = rest := by
  induction rest using text_induction (s := s) generalizing start with
  | nil =>
    rw [read_nil]
    exact ⟨trivial, rfl⟩
  | unclosed w why hw =>
    rw [read_of_error start hw] at h
    cases h
  | token kind x v hx ih =>
    rw [read_of_leads (hx start) start] at h ⊢
    obtain ⟨hchain, htext⟩ := ih h
    unfold text at htext ⊢
    refine ⟨⟨?_, hchain⟩, ?_⟩
    · rw [htext]
      exact hx start
    · rw [List.flatMap_cons, htext]

/-- A chain of tokens is read back from its text. -/
theorem read_of_chain {s : Settings} {ts : List Token} (h : Token.Chain s ts) (start : Nat) :
    (read s start (ts.flatMap Token.text)).unclosed = none ∧
      (read s start (ts.flatMap Token.text)).tokens.map Token.content =
        ts.map Token.content := by
  induction ts generalizing start with
  | nil => simp [read_nil]
  | cons t ts ih =>
    obtain ⟨hlead, hts⟩ := h
    obtain ⟨hu, hm⟩ := ih hts (start + Text.byteSize t.text)
    rw [List.flatMap_cons, read_of_leads hlead start]
    exact ⟨hu, by simp [hm, Token.content]⟩

end TokenStream
end SqlStatements
