import SqlStatements.Proofs.Shrinking
import SqlStatements.Proofs.Trimming

namespace SqlStatements

namespace Token
open Lexeme

theorem Undelimited.shrinks {w v : Text} (h : Undelimited .standard w) (hs : w.Shrinks v) :
    Undelimited .standard v := by
  have hline : literal? Settings.standard.lineComment w = none := by
    simpa [lineComment?] using h.line
  have hblock := blockComment?_eq_none_iff.mp h.block
  refine ⟨hs.literal?_eq_none rfl h.separator, ?_, ?_⟩
  · simpa [lineComment?] using hs.literal?_eq_none rfl hline
  · exact blockComment?_eq_none_iff.mpr (hs.literal?_eq_none rfl hblock)

theorem Unquoted.shrinks {w v : Text} (h : Unquoted .standard w) (hs : w.Shrinks v) :
    Unquoted .standard v := by
  refine ⟨h.toUndelimited.shrinks hs, hs.quotedString?_eq_none h.quote, ?_⟩
  exact dollarQuote?_eq_none_iff.mpr (hs.dollarTag?_eq_none (dollarQuote?_eq_none_iff.mp h.dollar))

/-- A token is read again in front of a text that has shrunk. Blanks and line comments are
only read again if the text still begins as before. -/
theorem Leads.shrinks {t : Token} {w v : Text} (h : Leads .standard t w) (hs : w.Shrinks v)
    (hhead : t.isTrivia = true → v = [] ∨ v.head? = w.head?) : Leads .standard t v := by
  obtain ⟨kind, x, start⟩ := t
  obtain ⟨hne, hc⟩ := h
  refine ⟨hne, ?_⟩
  dsimp only at hne hc ⊢
  have hx := hs.append_left x
  obtain ⟨c, cs, rfl⟩ := List.exists_cons_of_ne_nil hne
  cases hc with
  | separator hlit =>
    exact .separator (literal?_append_iff.mpr (literal?_append_iff.mp hlit))
  | line hsep hline =>
    refine .line (hx.literal?_eq_none rfl hsep) (lineComment?_append_iff.mpr ?_)
    obtain ⟨hopen, line, he, hlen⟩ := lineComment?_append_iff.mp hline
    refine ⟨hopen, line, he, lineLength_append_iff.mpr ?_⟩
    obtain ⟨body, breaks, hbody, hb, hk, hn, hw⟩ := lineLength_append_iff.mp hlen
    rcases hhead rfl with rfl | hv
    · exact ⟨body, breaks, hbody, hb, hk, by simp, by simp⟩
    · refine ⟨body, breaks, hbody, hb, hk, ?_, by simpa [hv] using hw⟩
      intro h
      rw [hn h] at hv
      exact List.head?_eq_none_iff.mp hv
  | block hsep hline hblock =>
    have hl : literal? Settings.standard.lineComment (c :: cs ++ w) = none := by
      simpa [lineComment?] using hline
    refine .block (hx.literal?_eq_none rfl hsep) ?_
      (blockComment?_append_iff.mpr (blockComment?_append_iff.mp hblock))
    simpa [lineComment?] using hx.literal?_eq_none rfl hl
  | quote hd hq =>
    obtain ⟨q, hm, b, he, hb, hw⟩ := quotedString?_append_iff.mp hq
    refine .quote (hd.shrinks hx) (quotedString?_append_iff.mpr ⟨q, hm, b, he, hb, ?_⟩)
    intro hv
    exact hw (hs.of_head hv (isBlank_of_mem_quotes hm))
  | dollar hd hq hdollar =>
    exact .dollar (hd.shrinks hx) (hx.quotedString?_eq_none hq)
      (dollarQuote?_append_iff.mpr (dollarQuote?_append_iff.mp hdollar))
  | identifier hu hi =>
    obtain ⟨d, ds, he, hd, hds, hw⟩ := identifier?_append_iff.mp hi
    refine .identifier (hu.shrinks hx) (identifier?_append_iff.mpr ⟨d, ds, he, hd, hds, ?_⟩)
    intro e hv
    cases hpart : isWordPart e with
    | false => rfl
    | true =>
      rw [hw e (hs.of_head hv (isBlank_of_isWordPart hpart))] at hpart
      cases hpart
  | blanks hu hi hw =>
    obtain ⟨hb, hall, hnext⟩ := blanks?_append_iff.mp hw
    refine .blanks (hu.shrinks hx)
      (identifier?_cons_eq_none_iff.mpr (identifier?_cons_eq_none_iff.mp hi))
      (blanks?_append_iff.mpr ⟨hb, hall, ?_⟩)
    rcases hhead rfl with rfl | hv
    · simp
    · rwa [hv]
  | character hu hi hb hc =>
    exact .character (hu.shrinks hx)
      (identifier?_cons_eq_none_iff.mpr (identifier?_cons_eq_none_iff.mp hi))
      (blanks?_cons_eq_none_iff.mpr (blanks?_cons_eq_none_iff.mp hb))
      (character?_append_iff.mpr (character?_append_iff.mp hc))

/-- Neither a delimiter nor a literal begins with such a character. -/
theorem unquoted_of_head {c : Char} (hc : c ∉ [';', '-', '/', '$']) (hq : c ∉ quotes) (w : Text) :
    Unquoted .standard (c :: w) := by
  simp only [List.mem_cons, List.not_mem_nil, or_false, not_or] at hc
  obtain ⟨hsemi, hdash, hslash, hdollar⟩ := hc
  have hline : literal? Settings.standard.lineComment (c :: w) = none :=
    literal?_eq_none_of_head (by simpa [Settings.standard] using Ne.symm hdash)
  refine ⟨⟨?_, by simpa [lineComment?] using hline, ?_⟩, ?_, ?_⟩
  · exact literal?_eq_none_of_head (by simpa [Settings.standard] using Ne.symm hsemi)
  · exact blockComment?_eq_none_iff.mpr
      (literal?_eq_none_of_head (by simpa [Settings.standard] using Ne.symm hslash))
  · exact (quotedString?_cons c w).trans (if_neg hq)
  · exact dollarQuote?_eq_none_iff.mpr (by simp [dollarTag?, hdollar])

/-- Blanks are read as whitespace where no other blank follows them. -/
theorem leads_blanks {x w : Text} {start : Nat} (hne : x ≠ [])
    (hx : ∀ c ∈ x, isAsciiBlank c = true) (hw : ∀ d ∈ w.head?, isAsciiBlank d = false) :
    Leads .standard ⟨.whitespace, x, start⟩ w := by
  refine ⟨hne, ?_⟩
  have hblanks := blanks?_append_iff.mpr ⟨hne, hx, hw⟩
  obtain ⟨c, cs, rfl⟩ := List.exists_cons_of_ne_nil hne
  have hc := hx c (by simp)
  obtain ⟨hhead, hletter⟩ : c ∉ [';', '-', '/', '$'] ∧ c.isAlpha = false := by
    simp only [isAsciiBlank, Bool.or_eq_true, beq_iff_eq] at hc
    rcases hc with ((((h | h) | h) | h) | h) | h <;> subst h <;> decide
  have hquotes := (not_mem_quotes_of_isBlank (isBlank_of_isAsciiBlank hc)).1
  exact .blanks (unquoted_of_head hhead hquotes _) (identifier?_cons_eq_none_iff.mpr hletter) hblanks

theorem Leads.block_ends {s : Settings} {body w : Text} {n : Nat}
    (hn : Text.indexOf? s.blockClose body = some n) (hl : n + s.blockClose.length = body.length)
    (hs : s.blockClose.getLast? = some '/') : (w ++ body).getLast? = some '/' := by
  obtain ⟨front, rfl⟩ := suffix_of_indexOf? hn hl
  rw [← List.append_assoc, List.getLast?_append, hs]
  rfl

/-- Trivia neither begin nor end with a quote or the escape, unless the text ends with them. -/
theorem Leads.trivia_edges {t : Token} {w : Text} (h : Leads .standard t w)
    (ht : t.isTrivia = true) :
    (∀ c ∈ t.text.head?, c ∉ quotes) ∧
      (w ≠ [] → ∀ c ∈ t.text.getLast?, c ∉ quotes ∧ c ≠ '\\') := by
  obtain ⟨kind, x, start⟩ := t
  obtain ⟨hne, hc⟩ := h
  dsimp only at hne hc ⊢
  cases kind with
  | comment =>
    cases hc with
    | line _ hline =>
      obtain ⟨-, line, rfl, hlen⟩ := lineComment?_append_iff.mp hline
      constructor
      · intro c hc
        obtain rfl : '-' = c := by simpa [Settings.standard] using hc
        decide
      · intro hw c hc
        obtain ⟨body, breaks, rfl, -, hk, hn, -⟩ := lineLength_append_iff.mp hlen
        have hbreaks : breaks ≠ [] := fun he => hw (hn he)
        rw [← List.append_assoc, List.getLast?_append_of_ne_nil _ hbreaks] at hc
        exact not_mem_quotes_of_isBlank
          (isBlank_of_isLineBreak (hk c (List.mem_of_getLast? hc)))
    | block _ _ hblock =>
      obtain ⟨-, body, n, rfl, hn, hl⟩ := blockComment?_append_iff.mp hblock
      constructor
      · intro c hc
        obtain rfl : '/' = c := by simpa [Settings.standard] using hc
        decide
      · intro hw c hc
        rw [Leads.block_ends hn hl rfl] at hc
        obtain rfl := Option.some.inj hc
        decide
  | whitespace =>
    cases hc with
    | blanks _ _ hb =>
      obtain ⟨-, hall, -⟩ := blanks?_append_iff.mp hb
      constructor
      · intro c hc
        exact (not_mem_quotes_of_isBlank
          (isBlank_of_isAsciiBlank (hall c (List.mem_of_head? hc)))).1
      · intro _ c hc
        exact not_mem_quotes_of_isBlank
          (isBlank_of_isAsciiBlank (hall c (List.mem_of_getLast? hc)))
  | separator => cases ht
  | quotedString => cases ht
  | identifier => cases ht
  | other => cases ht
  | eof => cases ht

def trimEnd (t : Token) : Token := { t with text := t.text.rdropWhile isBlank }

/-- At the end of the input the blanks behind a comment can be left out. -/
theorem Leads.trim_comment {t : Token} {w : Text} (h : Leads .standard t w)
    (hk : t.kind = .comment) (hw : ∀ c ∈ w, isBlank c = true) :
    Leads .standard t.trimEnd [] := by
  unfold trimEnd
  have hcut : Text.Shrinks w [] :=
    .cut fun c hc => (not_mem_quotes_of_isBlank (hw c (List.mem_of_head? hc))).1
  have hend := h.shrinks hcut (fun _ => .inl rfl)
  obtain ⟨kind, x, start⟩ := t
  obtain ⟨hne, hc⟩ := h
  dsimp only at hk hne hc hend ⊢
  subst hk
  cases hc with
  | line hsep hline =>
    obtain ⟨hopen, line, rfl, hlen⟩ := lineComment?_append_iff.mp hline
    obtain ⟨body, breaks, hbody, hb, hbk, -, -⟩ := lineLength_append_iff.mp hlen
    have hopener : ∀ c ∈ Settings.standard.lineComment.getLast?, isBlank c = false := by
      intro c hc
      obtain rfl : '-' = c := Option.some.inj hc
      decide
    rw [Text.rdropWhile_append hopener]
    refine ⟨by simp [Settings.standard], .line (by rfl) (lineComment?_append_iff.mpr ?_)⟩
    refine ⟨hopen, _, rfl, lineLength_append_iff.mpr ?_⟩
    obtain ⟨left, hleft⟩ := List.rdropWhile_prefix isBlank line
    -- what is kept of the line either reaches into its line breaks or does not
    rcases List.append_eq_append_iff.mp (hleft.trans hbody) with ⟨r, hr, -⟩ | ⟨r, hr, hr'⟩
    · rw [hr] at hb
      exact ⟨_, [], (List.append_nil _).symm, fun c hc => hb c (by simp [hc]), by simp, by simp,
        by simp⟩
    · rw [hr'] at hbk
      exact ⟨body, r, hr, hb, fun c hc => hbk c (by simp [hc]), by simp,
        by simp⟩
  | block hsep hline hblock =>
    obtain ⟨-, body, n, rfl, hn, hl⟩ := blockComment?_append_iff.mp hblock
    have hlast := Leads.block_ends (w := Settings.standard.blockOpen) hn hl rfl
    have hself : (Settings.standard.blockOpen ++ body).rdropWhile isBlank =
        Settings.standard.blockOpen ++ body := by
      rw [List.rdropWhile_eq_self_iff]
      intro hne
      rw [List.getLast?_eq_some_getLast hne] at hlast
      rw [Option.some.inj hlast]
      decide
    rw [hself]
    exact hend

end Token
end SqlStatements
