import SqlStatements.Proofs.Detection

namespace SqlStatements

namespace Text

/-- Of two texts at the front of a third one, the one with fewer bytes begins the other. -/
theorem prefix_of_byteSize_le {s t whole : Text} (hs : s <+: whole) (ht : t <+: whole)
    (h : s.byteSize ≤ t.byteSize) : s <+: t := by
  rcases List.prefix_or_prefix_of_prefix hs ht with hst | ⟨r, rfl⟩
  · exact hst
  · cases r with
    | nil => simp
    | cons c r =>
      have hc := c.utf8Size_pos
      rw [byteSize_append, byteSize_cons] at h
      omega

end Text

namespace Token
open Lexeme

/-- Every place before the end of a text lies in one of the tokens that make it up. -/
theorem exists_covering {ts : List Token} {before after : Text}
    (h : ts.flatMap text = before ++ after) (hne : after ≠ []) :
    ∃ us t vs front back, ts = us ++ t :: vs ∧ before = us.flatMap text ++ front ∧
      t.text = front ++ back ∧ back ≠ [] := by
  induction ts generalizing before with
  | nil =>
    obtain ⟨-, rfl⟩ := List.append_eq_nil_iff.mp h.symm
    exact absurd rfl hne
  | cons t ts ih =>
    have hrest (front : Text) (hbefore : before = t.text ++ front)
        (hts : ts.flatMap text = front ++ after) :
        ∃ us u vs front back, t :: ts = us ++ u :: vs ∧ before = us.flatMap text ++ front ∧
          u.text = front ++ back ∧ back ≠ [] := by
      obtain ⟨us, u, vs, front, back, rfl, rfl, hu, hback⟩ := ih hts
      refine ⟨t :: us, u, vs, front, back, rfl, ?_, hu, hback⟩
      rw [hbefore, List.flatMap_cons, List.append_assoc]
    rw [List.flatMap_cons] at h
    rcases List.append_eq_append_iff.mp h with ⟨front, hbefore, hts⟩ | ⟨back, ht, hafter⟩
    · exact hrest front hbefore hts
    · by_cases hback : back = []
      · subst hback
        rw [List.append_nil] at ht
        exact hrest [] (by simp [ht]) hafter.symm
      · exact ⟨[], t, ts, before, back, rfl, rfl, ht, hback⟩

/-- A name, blanks or a sign reach across no place at which the separator begins. -/
theorem Leads.kind_of_separator_within {s : Settings} {t : Token} {w front back : Text} {c : Char}
    (h : Leads s t w) (hc : c ∈ s.separator.head?) (hword : isWordPart c = false)
    (hblank : isAsciiBlank c = false) (ht : t.text = front ++ back) (hne : back ≠ [])
    (hs : s.separator <+: back ++ w) :
    t.kind = .comment ∨ t.kind = .quotedString ∨ t.kind = .separator := by
  obtain ⟨rest, hsep⟩ := List.head?_eq_some_iff.mp hc
  obtain ⟨d, back, rfl⟩ := List.exists_cons_of_ne_nil hne
  obtain rfl : c = d := by
    rw [hsep, List.cons_append] at hs
    exact (List.cons_prefix_cons.mp hs).1
  have heof := h.isEof
  obtain ⟨kind, x, start⟩ := t
  obtain ⟨-, hcl⟩ := h
  dsimp only at ht hcl ⊢
  subst ht
  cases kind with
  | separator => exact .inr (.inr rfl)
  | comment => exact .inl rfl
  | quotedString => exact .inr (.inl rfl)
  | identifier =>
    cases hcl with
    | identifier _ hi =>
      obtain ⟨e, es, he, hfirst, hes, -⟩ := identifier?_append_iff.mp hi
      have hmem : c ∈ e :: es := by
        rw [← he]
        simp
      have : isWordPart c = true := by
        rcases List.mem_cons.mp hmem with rfl | hm
        · exact isWordPart_of_isAlpha hfirst
        · exact hes c hm
      rw [hword] at this
      cases this
  | whitespace =>
    cases hcl with
    | blanks _ _ hb =>
      obtain ⟨-, hall, -⟩ := blanks?_append_iff.mp hb
      have := hall c (by simp)
      rw [hblank] at this
      cases this
  | other =>
    cases hcl with
    | character hu _ _ hch =>
      -- the sign is a token of its own, so the separator would have been read there
      obtain ⟨e, he⟩ := character?_append_iff.mp hch
      obtain ⟨rfl, he⟩ : front = [] ∧ c :: back = [e] := by
        rcases List.append_eq_singleton_iff.mp he with ⟨hf, hb⟩ | ⟨-, hb⟩
        · exact ⟨hf, hb⟩
        · cases hb
      have hne : s.separator ≠ [] := by simp [hsep]
      have hnone := hu.separator
      rw [List.nil_append, literal?_eq_some_iff.mpr ⟨hne, hs, rfl⟩] at hnone
      cases hnone
  | eof => cases heof

end Token

namespace TokenStream

/-- A token takes a place in if the text before the place ends within the text of the token. -/
theorem covers_iff {settings : Settings} {script before after : Text} {us vs : List Token}
    {t : Token} (hs : (read settings 0 script).unclosed = none)
    (hts : (read settings 0 script).tokens = us ++ t :: vs) (hscript : script = before ++ after) :
    t.start ≤ before.byteSize ∧ before.byteSize < t.stop ↔
      ∃ front back, before = us.flatMap Token.text ++ front ∧ t.text = front ++ back ∧
        back ≠ [] := by
  have hstart : t.start = Text.byteSize (us.flatMap Token.text) := by
    rw [start_of_read hts, Nat.zero_add]
  have htext : us.flatMap Token.text ++ (t.text ++ vs.flatMap Token.text) = script := by
    have := (chain_read hs).2
    rwa [text, hts, List.flatMap_append, List.flatMap_cons] at this
  rw [Token.stop, hstart, ← Text.byteSize_append]
  constructor
  · rintro ⟨hle, hlt⟩
    have hbefore : before <+: script := ⟨after, hscript.symm⟩
    have hupto : us.flatMap Token.text ++ t.text <+: script :=
      ⟨vs.flatMap Token.text, by rw [List.append_assoc, htext]⟩
    obtain ⟨front, rfl⟩ := Text.prefix_of_byteSize_le ⟨_, htext⟩ hbefore hle
    obtain ⟨back, hback⟩ := Text.prefix_of_byteSize_le hbefore hupto (Nat.le_of_lt hlt)
    rw [List.append_assoc, List.append_cancel_left_eq] at hback
    refine ⟨front, back, rfl, hback.symm, ?_⟩
    rintro rfl
    rw [← hback, List.append_nil] at hlt
    exact absurd hlt (Nat.lt_irrefl _)
  · rintro ⟨front, back, rfl, ht, hne⟩
    obtain ⟨c, back, rfl⟩ := List.exists_cons_of_ne_nil hne
    have hc := c.utf8Size_pos
    rw [ht]
    simp only [Text.byteSize_append, Text.byteSize_cons]
    omega

end TokenStream

/-- Wherever the text of the separator occurs in a script it lies in a comment, in a literal or
in a separator, unless it begins like a name or with a blank. Names, blanks and signs never hide
one. -/
theorem separator_hides_in_comment_or_literal {settings : Settings} {script before after : Text}
    {ts : List Token} {c : Char} (hscan : scan settings script = .ok ts)
    (hc : c ∈ settings.separator.head?) (hword : Lexeme.isWordPart c = false)
    (hblank : isAsciiBlank c = false) (hscript : script = before ++ settings.separator ++ after) :
    (∃ t ∈ ts, t.start ≤ before.byteSize ∧ before.byteSize < t.stop) ∧
      ∀ t ∈ ts, t.start ≤ before.byteSize ∧ before.byteSize < t.stop →
        t.kind = .comment ∨ t.kind = .quotedString ∨ t.kind = .separator := by
  obtain ⟨-, hs, rfl⟩ := scan_eq_ok_iff.mp hscan
  obtain ⟨hchain, htext⟩ := TokenStream.chain_read hs
  rw [List.append_assoc] at hscript
  constructor
  · have hne : settings.separator ++ after ≠ [] := by
      intro he
      rw [(List.append_eq_nil_iff.mp he).1] at hc
      cases hc
    obtain ⟨us, t, vs, front, back, hts, hcover⟩ :=
      Token.exists_covering (htext.trans hscript) hne
    refine ⟨t, by simp [hts], ?_⟩
    exact (TokenStream.covers_iff hs hts hscript).mpr ⟨front, back, hcover⟩
  · intro t ht hcovers
    rcases List.mem_append.mp ht with ht | ht
    · obtain ⟨us, vs, hts⟩ := List.append_of_mem ht
      obtain ⟨front, back, rfl, hback, hne⟩ :=
        (TokenStream.covers_iff hs hts hscript).mp hcovers
      apply (hts ▸ hchain).leads.kind_of_separator_within hc hword hblank hback hne
      rw [TokenStream.text, hts, hscript, List.flatMap_append, List.flatMap_cons, hback] at htext
      simp only [List.append_assoc, List.append_cancel_left_eq] at htext
      exact ⟨after, htext.symm⟩
    · obtain rfl := List.mem_singleton.mp ht
      exact absurd (Nat.lt_of_le_of_lt hcovers.1 hcovers.2) (Nat.lt_irrefl script.byteSize)

/-- The second of two slashes within a literal begins a separator of two signs. -/
theorem separator_hides_in_literal_behind_sign :
    let settings := { Settings.standard with separator := ['/', '-'] }
    let tokens : List Token := [⟨.quotedString, "'é//-'".toList, 0⟩, ⟨.whitespace, [' '], 7⟩,
      ⟨.separator, ['/', '-'], 8⟩, .eof 10]
    scan settings "'é//-' /-".toList = .ok tokens ∧
      (∃ t ∈ tokens, t.start ≤ 4 ∧ 4 < t.stop) ∧
        ∀ t ∈ tokens, t.start ≤ 4 ∧ 4 < t.stop →
          t.kind = .comment ∨ t.kind = .quotedString ∨ t.kind = .separator := by
  intro settings tokens
  have hscan : scan settings "'é//-' /-".toList = .ok tokens := by decide +kernel
  have hscript : "'é//-' /-".toList = "'é/".toList ++ settings.separator ++ "' /-".toList := rfl
  have hhead : '/' ∈ settings.separator.head? := rfl
  exact ⟨hscan, separator_hides_in_comment_or_literal hscan hhead rfl rfl hscript⟩

end SqlStatements
