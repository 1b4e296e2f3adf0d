import Mathlib.Algebra.Ring.Parity
import SqlStatements.Proofs.Streams
import SqlStatements.Separator

namespace SqlStatements

namespace Lexeme

/-- Without escapes every quote but the closing one of a literal has its double next to it. -/
theorem odd_count_of_closingQuote? {α : Type} [BEq α] [LawfulBEq α] {escape quote : α}
    {b : List α} (h : closingQuote? escape quote b = some b.length) (he : escape ∉ b) :
    Odd (b.count quote) := by
  fun_induction closingQuote? escape quote b with
  | case1 => cases h
  | case2 c hc => cases h
  | case3 c hc hq => simp [beq_iff_eq.mp hq]
  | case4 c hc hq => cases h
  | case5 c d rest hc ih => simp [beq_iff_eq.mp hc] at he
  | case6 c d rest hc hq hd ih =>
    have hr : closingQuote? escape quote rest = some rest.length := by simpa using h
    have hodd := ih hr (fun hm => he (by simp [hm]))
    rw [beq_iff_eq.mp hq, beq_iff_eq.mp hd, List.count_cons_self, List.count_cons_self]
    exact hodd.add_even ⟨1, rfl⟩
  | case7 c d rest hc hq hd => simp at h
  | case8 c d rest hc hq ih =>
    have hr : closingQuote? escape quote (d :: rest) = some (d :: rest).length := by simpa using h
    rw [List.count_cons_of_ne (by simpa using hq)]
    exact ih hr (fun hm => he (List.mem_cons_of_mem c hm))

end Lexeme

namespace Separator

/-- Behind one more character a text is inside of quotes if that makes the number of quotes
odd. -/
theorem odd_count_cons_iff {c quote : Char} {text : Text} {quoted : Bool} :
    (quoted = true ↔ Odd ((c :: text).count quote)) ↔
      ((if c = quote then !quoted else quoted) = true ↔ Odd (text.count quote)) := by
  by_cases hc : c = quote
  · subst hc
    rw [List.count_cons_self, Nat.odd_add_one, if_pos rfl]
    cases quoted <;> simp
  · rw [List.count_cons_of_ne hc, if_neg hc]

/-- What counts is the number of apostrophes up to the first character of an occurrence. -/
theorem occurs_iff {delimiter text : Text} {quoted : Bool} :
    occurs delimiter quoted text = true ↔
      ∃ before c after, text = before ++ c :: after ∧ delimiter <+: c :: after ∧
        (quoted = true ↔ Odd ((before ++ [c]).count '\x27')) := by
  induction text generalizing quoted with
  | nil => simp [occurs]
  | cons d text ih =>
    rw [occurs, Bool.or_eq_true, ih, Bool.and_eq_true, List.isPrefixOf_iff_prefix]
    constructor
    · rintro (⟨hq, hp⟩ | ⟨before, c, after, rfl, hp, hodd⟩)
      · refine ⟨[], d, text, rfl, hp, odd_count_cons_iff.mpr ?_⟩
        simpa using hq
      · exact ⟨d :: before, c, after, rfl, hp, odd_count_cons_iff.mpr hodd⟩
    · rintro ⟨before, c, after, he, hp, hodd⟩
      cases before with
      | nil =>
        obtain ⟨rfl, rfl⟩ := List.cons.inj he
        refine .inl ⟨?_, hp⟩
        simpa using odd_count_cons_iff.mp hodd
      | cons b before =>
        obtain ⟨rfl, rfl⟩ := List.cons.inj he
        exact .inr ⟨before, c, after, rfl, hp, odd_count_cons_iff.mp hodd⟩

/-- A delimiter is used where an even number of apostrophes stands before it, its own first
character included. -/
theorem isUsed_iff {script delimiter : Text} :
    isUsed script delimiter = true ↔
      ∃ before c rest after, delimiter = c :: rest ∧ script = before ++ delimiter ++ after ∧
        Even ((before ++ [c]).count '\x27') := by
  cases delimiter with
  | nil => simp [isUsed]
  | cons c rest =>
    rw [isUsed, List.isEmpty_cons, Bool.not_false, Bool.true_and, occurs_iff]
    simp only [Bool.false_eq_true, false_iff, Nat.not_odd_iff_even]
    constructor
    · rintro ⟨before, d, tail, rfl, ⟨after, hafter⟩, heven⟩
      obtain ⟨rfl, rfl⟩ := List.cons.inj hafter
      exact ⟨before, c, rest, after, rfl, by simp, heven⟩
    · rintro ⟨before, d, tail, after, he, rfl, heven⟩
      obtain ⟨rfl, rfl⟩ := List.cons.inj he
      exact ⟨before, c, rest ++ after, by simp, ⟨after, rfl⟩, heven⟩

theorem result_resolve_of_isUsed {ε : Type} {script delimiter : Text}
    (h : isUsed script delimiter = true) :
    (resolve script (some delimiter) : Logged ε Text).result = .ok delimiter := by
  rw [resolve, Option.getD_some, if_pos h]
  rfl

end Separator

namespace Token

/-- A literal in single quotes without a backslash. -/
def isPlainLiteral (t : Token) : Bool :=
  t.kind == .quotedString && t.text.head? == some '\x27' && !t.text.contains '\\'

/-- The apostrophes of such a literal come in pairs. -/
theorem Leads.even_count {s : Settings} {t : Token} {w : Text} (h : Leads s t w)
    (ht : t.isPlainLiteral = true) : Even (t.text.count '\x27') := by
  obtain ⟨kind, x, start⟩ := t
  obtain ⟨-, hc⟩ := h
  simp only [isPlainLiteral, Bool.and_eq_true, beq_iff_eq, Bool.not_eq_true',
    List.contains_eq_mem, decide_eq_false_iff_not] at ht
  obtain ⟨⟨hk, hhead⟩, hescape⟩ := ht
  dsimp only at hk hhead hescape hc ⊢
  subst hk
  cases hc with
  | quote _ hq =>
    obtain ⟨q, -, b, rfl, hb, -⟩ := Lexeme.quotedString?_append_iff.mp hq
    obtain rfl : q = '\x27' := by simpa using hhead
    have hodd := Lexeme.odd_count_of_closingQuote? hb (fun hm => hescape (by simp [hm]))
    rw [List.count_cons_self]
    exact hodd.add_one
  | dollar _ _ hd =>
    obtain ⟨tag, body, n, ⟨word, -, rfl⟩, rfl, -, -⟩ := Lexeme.dollarQuote?_append_iff.mp hd
    simp at hhead

theorem Chain.even_count {s : Settings} {ts us : List Token} (h : Chain s (ts ++ us))
    (ht : ∀ t ∈ ts, '\x27' ∈ t.text → t.isPlainLiteral = true) :
    Even ((ts.flatMap text).count '\x27') := by
  induction ts with
  | nil => simp
  | cons t ts ih =>
    rw [List.flatMap_cons, List.count_append]
    refine Even.add ?_ (ih h.2 fun u hu => ht u (by simp [hu]))
    by_cases hm : '\x27' ∈ t.text
    · exact h.1.even_count (ht t (by simp) hm)
    · simp [List.count_eq_zero_of_not_mem hm]

end Token

theorem scan_eq_ok_iff {settings : Settings} {script : Text} {ts : List Token} :
    scan settings script = .ok ts ↔
      settings.validate = .ok () ∧ (TokenStream.read settings 0 script).unclosed = none ∧
        ts = (TokenStream.read settings 0 script).tokens ++ [.eof script.byteSize] := by
  rw [scan]
  cases settings.validate with
  | error e => simp
  | ok u =>
    dsimp only
    cases hu : (TokenStream.read settings 0 script).unclosed with
    | none => simp [TokenStream.failure?, hu, eq_comm]
    | some why => simp [TokenStream.failure?, hu]

/-- Every token of a scan but the empty one at its end is read from the script. -/
theorem tokens_of_scan {settings : Settings} {script : Text} {before after : List Token}
    {t : Token} (h : scan settings script = .ok (before ++ t :: after)) (ht : t.isEof = false) :
    ∃ later, (TokenStream.read settings 0 script).tokens = before ++ t :: later := by
  obtain ⟨-, -, htokens⟩ := scan_eq_ok_iff.mp h
  rcases List.append_eq_append_iff.mp htokens with ⟨tail, he, htail⟩ | ⟨tail, -, htail⟩
  · cases tail with
    | nil =>
      obtain ⟨rfl, -⟩ := List.cons.inj htail
      cases ht
    | cons u later =>
      obtain ⟨rfl, -⟩ := List.cons.inj htail
      exact ⟨later, he⟩
  · cases tail with
    | nil =>
      obtain ⟨rfl, -⟩ := List.cons.inj htail
      cases ht
    | cons u tail =>
      obtain ⟨-, htail⟩ := List.cons.inj htail
      simp at htail

open Separator

/-- A separator of the scanner is found if the number of apostrophes up to its own first
character is even. It is even if each apostrophe before it belongs to a literal in single quotes
that uses no backslash. -/
theorem separator_is_found {ε : Type} {script delimiter : Text} {before after : List Token}
    {t : Token}
    (hscan : scan { Settings.standard with separator := delimiter } script =
      .ok (before ++ t :: after))
    (ht : t.kind = .separator) :
    (Even ((before.flatMap Token.text ++ t.text.take 1).count '\x27') →
        isUsed script delimiter = true ∧
          (resolve script (some delimiter) : Logged ε Text).result = .ok delimiter) ∧
      ((∀ u ∈ before, '\x27' ∈ u.text → u.isPlainLiteral = true) →
        delimiter.head? ≠ some '\x27' →
          Even ((before.flatMap Token.text ++ t.text.take 1).count '\x27')) := by
  obtain ⟨-, hs, -⟩ := scan_eq_ok_iff.mp hscan
  obtain ⟨later, htokens⟩ := tokens_of_scan hscan (by simp [Token.isEof, ht])
  obtain ⟨hchain, htext⟩ := TokenStream.chain_read hs
  rw [TokenStream.text, htokens, List.flatMap_append, List.flatMap_cons] at htext
  rw [htokens] at hchain
  have he : t.text = delimiter := hchain.leads.text_of_separator ht
  obtain ⟨c, rest, rfl⟩ := List.exists_cons_of_ne_nil (he ▸ hchain.leads.1)
  rw [he, List.take_succ_cons, List.take_zero]
  constructor
  · intro heven
    have hused : isUsed script (c :: rest) = true := by
      rw [isUsed_iff]
      refine ⟨before.flatMap Token.text, c, rest, later.flatMap Token.text, rfl, ?_, heven⟩
      rw [← htext, he, List.append_assoc]
    exact ⟨hused, result_resolve_of_isUsed hused⟩
  · intro hbefore hhead
    have hc : c ≠ '\x27' := by
      rintro rfl
      exact hhead rfl
    rw [List.count_append, List.count_singleton, if_neg (by simpa using hc), Nat.add_zero]
    exact hchain.even_count hbefore

/-- A literal with a doubled quote, and a separator of two letters. -/
theorem separator_is_found_behind_literal :
    isUsed "SELECT 'it''s GO' GO".toList ['G', 'O'] = true ∧
      (resolve "SELECT 'it''s GO' GO".toList (some ['G', 'O']) : Logged Failure Text).result =
        .ok ['G', 'O'] := by
  have hscan : scan { Settings.standard with separator := ['G', 'O'] }
      "SELECT 'it''s GO' GO".toList =
        .ok ([⟨.identifier, "SELECT".toList, 0⟩, ⟨.whitespace, [' '], 6⟩,
          ⟨.quotedString, "'it''s GO'".toList, 7⟩, ⟨.whitespace, [' '], 17⟩] ++
            ⟨.separator, ['G', 'O'], 18⟩ :: [.eof 20]) := by
    decide +kernel
  obtain ⟨hfound, heven⟩ := @separator_is_found Failure _ _ _ _ _ hscan rfl
  exact hfound (heven (by decide) (by decide))

/-- An apostrophe in a comment hides the separators behind it. -/
theorem not_all_separators_found :
    ¬ ∀ (script delimiter : Text) (ts : List Token), delimiter ≠ [] →
      scan { Settings.standard with separator := delimiter } script = .ok ts →
      (∃ t ∈ ts, t.kind = .separator) → isUsed script delimiter = true := by
  intro h
  have hscan : scan { Settings.standard with separator := [';'] } "--it's\n;".toList =
      .ok [⟨.comment, "--it's\n".toList, 0⟩, ⟨.separator, [';'], 7⟩, .eof 8] := by
    decide +kernel
  have hused := h _ _ _ (by simp) hscan ⟨⟨.separator, [';'], 7⟩, by simp, rfl⟩
  revert hused
  decide +kernel

end SqlStatements
