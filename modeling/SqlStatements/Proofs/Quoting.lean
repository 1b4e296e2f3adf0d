import SqlStatements.Proofs.Lexemes

namespace SqlStatements.Lexeme

section Grammar
variable {α : Type}

/-- What stands between two quotes: escapes with the symbols behind them, doubled quotes and other
symbols, one after the other. -/
inductive QuoteBody (escape quote : α) : List α → Prop where
  | nil : QuoteBody escape quote []
  | escaped {c : α} {body : List α} :
      QuoteBody escape quote body → QuoteBody escape quote (escape :: c :: body)
  | doubled {body : List α} :
      QuoteBody escape quote body → QuoteBody escape quote (quote :: quote :: body)
  | plain {c : α} {body : List α} :
      c ≠ escape → c ≠ quote → QuoteBody escape quote body → QuoteBody escape quote (c :: body)

def IsQuoted (escape quote : α) (x : List α) : Prop :=
  ∃ body, QuoteBody escape quote body ∧ x = quote :: body ++ [quote]

/-- A literal ends after the first `n` symbols: they are one, and no quote carries it on. -/
def EndsQuote (escape quote : α) (rest : List α) (n : Nat) : Prop :=
  n ≤ rest.length ∧ IsQuoted escape quote (rest.take n) ∧ rest[n]? ≠ some quote

end Grammar

section Walk
variable {α : Type} [BEq α] [LawfulBEq α] {escape quote : α}

theorem QuoteBody.closingQuote?_eq {body : List α} (hq : quote ≠ escape)
    (h : QuoteBody escape quote body) :
    closingQuote? escape quote (body ++ [quote]) = some (body ++ [quote]).length := by
  induction h with
  | nil => simp [closingQuote?, hq]
  | @escaped c body _ ih =>
    rw [List.cons_append, List.cons_append, closingQuote?_escaped, ih]
    rfl
  | doubled _ ih =>
    rw [List.cons_append, List.cons_append, closingQuote?_doubled hq, ih]
    rfl
  | @plain c body he hc _ ih =>
    rw [List.cons_append, closingQuote?_cons_of_ne he hc, ih]
    rfl

/-- A walk that ends with the text has come through the inside of a literal and a quote. -/
theorem exists_quoteBody {b : List α} (h : closingQuote? escape quote b = some b.length) :
    ∃ body, QuoteBody escape quote body ∧ b = body ++ [quote] := by
  fun_induction closingQuote? escape quote b with
  | case1 => cases h
  | case2 c hc => cases h
  | case3 c hc hq => exact ⟨[], .nil, by simpa using hq⟩
  | case4 c hc hq => cases h
  | case5 c d rest hc ih =>
    obtain ⟨body, hbody, rfl⟩ := ih (by simpa using h)
    rw [beq_iff_eq] at hc
    subst hc
    exact ⟨c :: d :: body, .escaped hbody, rfl⟩
  | case6 c d rest hc hq hd ih =>
    obtain ⟨body, hbody, rfl⟩ := ih (by simpa using h)
    rw [beq_iff_eq] at hq hd
    subst hq hd
    exact ⟨_ :: _ :: body, .doubled hbody, rfl⟩
  | case7 c d rest hc hq hd => simp at h
  | case8 c d rest hc hq ih =>
    obtain ⟨body, hbody, hb⟩ := ih (by simpa using h)
    exact ⟨c :: body, .plain (by simpa using hc) (by simpa using hq) hbody, by rw [hb]; rfl⟩

theorem quoted?_append_iff (hq : quote ≠ escape) {x w : List α} :
    quoted? escape quote (x ++ w) = some x.length ↔
      IsQuoted escape quote x ∧ w.head? ≠ some quote := by
  constructor
  · intro h
    cases x with
    | nil => cases w <;> simp [quoted?] at h
    | cons c b =>
      rw [List.cons_append, quoted?] at h
      split at h
      · rename_i hc
        rw [beq_iff_eq] at hc
        subst hc
        have hl : closingQuote? escape c (b ++ w) = some b.length := by simpa using h
        obtain ⟨hb, hw⟩ := closingQuote?_append_iff.mp hl
        obtain ⟨body, hbody, rfl⟩ := exists_quoteBody hb
        exact ⟨⟨body, hbody, rfl⟩, hw⟩
      · cases h
  · rintro ⟨⟨body, hbody, rfl⟩, hw⟩
    have hl := closingQuote?_append_iff.mpr ⟨hbody.closingQuote?_eq hq, hw⟩
    rw [List.cons_append, List.cons_append, quoted?, if_pos (beq_self_eq_true quote), hl]
    rfl

omit [LawfulBEq α] in
theorem quoted?_le {rest : List α} {n : Nat} (h : quoted? escape quote rest = some n) :
    n ≤ rest.length := by
  cases rest with
  | nil => cases h
  | cons c cs =>
    rw [quoted?] at h
    split at h
    · obtain ⟨m, hm, rfl⟩ := Option.map_eq_some_iff.mp h
      exact Nat.succ_le_succ (closingQuote?_le hm)
    · cases h

/-- A match is a literal of the grammar that no quote carries on, and every one is matched. -/
theorem quoted?_eq_some_iff (hq : quote ≠ escape) {rest : List α} {n : Nat} :
    quoted? escape quote rest = some n ↔ EndsQuote escape quote rest n := by
  by_cases hn : n ≤ rest.length
  · have h := quoted?_append_iff hq (x := rest.take n) (w := rest.drop n)
    rw [List.take_append_drop, List.length_take_of_le hn, List.head?_drop] at h
    rw [h, EndsQuote, and_iff_right hn]
  · exact ⟨fun h => absurd (quoted?_le h) hn, fun h => absurd h.1 hn⟩

omit [LawfulBEq α] in
/-- With the escape for a quote every quote takes the symbol behind it along, and none closes. -/
theorem quoted?_of_escape (rest : List α) : quoted? quote quote rest = none := by
  have hclosing (b : List α) : closingQuote? quote quote b = none := by
    fun_induction closingQuote? quote quote b <;> simp_all
  cases rest with
  | nil => rfl
  | cons c cs => simp [quoted?, hclosing]

end Walk

/-- Over the bytes of a text the matcher of quoted strings accepts exactly its grammar: it takes
the literal that ends at its first closing quote, there is never more than one such end, and the
matcher gives up only where there is none. A backslash in the place of the quote never matches. -/
theorem quoted_strings_match_their_grammar (rest : Text) (quote : UInt8) :
    (quote ≠ 0x5C →
      (∀ n, quoted? 0x5C quote rest.utf8 = some n ↔ EndsQuote 0x5C quote rest.utf8 n) ∧
      (∀ m n, EndsQuote 0x5C quote rest.utf8 m → EndsQuote 0x5C quote rest.utf8 n → m = n) ∧
      (quoted? 0x5C quote rest.utf8 = none ↔ ∀ n, ¬ EndsQuote 0x5C quote rest.utf8 n)) ∧
    (quote = 0x5C → quoted? 0x5C quote rest.utf8 = none) := by
  constructor
  · intro hq
    refine ⟨fun n => quoted?_eq_some_iff hq, ?_, ?_⟩
    · intro m n hm hn
      rw [← quoted?_eq_some_iff hq] at hm hn
      exact Option.some.inj (hm.symm.trans hn)
    · rw [Option.eq_none_iff_forall_ne_some]
      exact forall_congr' fun n => not_congr (quoted?_eq_some_iff hq)
  · rintro rfl
    exact quoted?_of_escape rest.utf8

/-- An escaped letter of two bytes, an escaped quote and a doubled one stay inside. -/
theorem quoted_strings_match_their_grammar_with_escapes :
    (0x22 : UInt8) ≠ 0x5C ∧
      EndsQuote 0x5C 0x22 (Text.utf8 ['"', '\\', 'é', '\\', '"', '"', '"', '"', ' ']) 9 := by
  have h : (0x22 : UInt8) ≠ 0x5C := by decide
  exact ⟨h, (((quoted_strings_match_their_grammar _ 0x22).1 h).1 9).mp (by decide +kernel)⟩

end SqlStatements.Lexeme
