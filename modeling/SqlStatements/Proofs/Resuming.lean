import Mathlib.Data.List.Basic
import SqlStatements.Proofs.Shrinking

namespace SqlStatements

namespace Lexeme

/-- What does not begin a text does not begin a part of it that starts with it. -/
theorem literal?_eq_none_of_append {literal w r : Text} (h : literal? literal (w ++ r) = none) :
    literal? literal w = none := by
  cases hw : literal? literal w with
  | none => rfl
  | some n =>
    obtain ⟨hne, hp, hl⟩ := literal?_eq_some_iff.mp hw
    rw [literal?_eq_some_iff.mpr ⟨hne, hp.trans (List.prefix_append w r), hl⟩] at h
    cases h

theorem dollarTag?_eq_none_of_append {w r : Text} (h : dollarTag? (w ++ r) = none) :
    dollarTag? w = none := by
  cases hw : dollarTag? w with
  | none => rfl
  | some tag =>
    obtain ⟨htag, hp⟩ := dollarTag?_eq_some_iff.mp hw
    rw [dollarTag?_eq_some_iff.mpr ⟨htag, hp.trans (List.prefix_append w r)⟩] at h
    cases h

/-- An open literal stays open in the part of a text up to a character that is no quote. The
quote that ends the part could be one half of a doubled one. -/
theorem StaysOpen.of_append_right {q : Char} {state : Wait} {w r : Text}
    (h : StaysOpen q state (w ++ r)) (hlast : ∀ c ∈ w.getLast?, c ≠ q)
    (hw : w = [] → state ≠ .doubled) : StaysOpen q state w := by
  induction w generalizing state with
  | nil =>
    cases state with
    | nothing => trivial
    | escaped => trivial
    | doubled => exact absurd rfl (hw rfl)
  | cons c w ih =>
    have hrest : ∀ d ∈ w.getLast?, d ≠ q := by
      intro d hd
      apply hlast
      rw [List.getLast?_cons, Option.mem_def.mp hd]
      rfl
    cases state with
    | nothing =>
      rw [List.cons_append, StaysOpen] at h
      rw [StaysOpen]
      split
      · rename_i hc
        rw [if_pos hc] at h
        exact ih h hrest (by simp)
      rename_i hc
      rw [if_neg hc] at h
      split
      · rename_i hq
        rw [if_pos hq] at h
        apply ih h hrest
        rintro rfl
        exact absurd hq (hlast c rfl)
      · rename_i hq
        rw [if_neg hq] at h
        exact ih h hrest (by simp)
    | escaped => exact ih h hrest (by simp)
    | doubled => exact ⟨h.1, ih h.2 hrest (by simp)⟩

theorem quotedString?_eq_none_of_append {w r : Text} (h : quotedString? (w ++ r) = none)
    (hlast : ∀ c ∈ w.getLast?, c ∉ quotes) : quotedString? w = none := by
  cases w with
  | nil => rfl
  | cons c w =>
    rw [List.cons_append, quotedString?_cons] at h
    rw [quotedString?_cons]
    split
    · rename_i hc
      rw [if_pos hc, Option.map_eq_none_iff, closingQuote?_eq_none_iff] at h
      rw [Option.map_eq_none_iff, closingQuote?_eq_none_iff]
      apply h.of_append_right _ (by simp)
      rintro d hd rfl
      apply hlast d _ hc
      rw [List.getLast?_cons, Option.mem_def.mp hd]
      rfl
    · rfl

end Lexeme

namespace Token
open Lexeme

theorem Undelimited.of_append {s : Settings} {w r : Text} (h : Undelimited s (w ++ r)) :
    Undelimited s w := by
  have hline : literal? s.lineComment (w ++ r) = none := by
    simpa [lineComment?] using h.line
  refine ⟨literal?_eq_none_of_append h.separator, ?_, ?_⟩
  · simpa [lineComment?] using literal?_eq_none_of_append hline
  · exact blockComment?_eq_none_iff.mpr
      (literal?_eq_none_of_append (blockComment?_eq_none_iff.mp h.block))

theorem Unquoted.of_append {s : Settings} {w r : Text} (h : Unquoted s (w ++ r))
    (hlast : ∀ c ∈ w.getLast?, c ∉ quotes) : Unquoted s w := by
  refine ⟨h.toUndelimited.of_append, quotedString?_eq_none_of_append h.quote hlast, ?_⟩
  exact dollarQuote?_eq_none_iff.mpr
    (dollarTag?_eq_none_of_append (dollarQuote?_eq_none_iff.mp h.dollar))

/-- The text behind a separator does not matter. -/
theorem Leads.of_separator {s : Settings} {t : Token} {w : Text} (h : Leads s t w)
    (hk : t.kind = .separator) (v : Text) : Leads s t v := by
  obtain ⟨kind, x, start⟩ := t
  dsimp only at hk
  subst hk
  refine ⟨h.1, ?_⟩
  cases h.2 with
  | separator hs => exact .separator (literal?_append_iff.mpr (literal?_append_iff.mp hs))

/-- The end of a text can be cut off behind a character that is no quote without changing
the token at its front, unless nothing is left behind the token. -/
theorem Leads.of_append {s : Settings} {t : Token} {w r : Text} (h : Leads s t (w ++ r))
    (hw : w ≠ []) (hlast : ∀ c ∈ w.getLast?, c ∉ quotes) : Leads s t w := by
  obtain ⟨kind, x, start⟩ := t
  obtain ⟨hne, hc⟩ := h
  refine ⟨hne, ?_⟩
  dsimp only at hne hc ⊢
  have hhead : (w ++ r).head? = w.head? := List.head?_append_of_ne_nil _ hw
  have hend : ∀ c ∈ (x ++ w).getLast?, c ∉ quotes := by
    rwa [List.getLast?_append_of_ne_nil _ hw]
  rw [← List.append_assoc] at hc
  obtain ⟨c, cs, rfl⟩ := List.exists_cons_of_ne_nil hne
  cases hc with
  | separator hs =>
    rw [List.append_assoc] at hs
    exact .separator (literal?_append_iff.mpr (literal?_append_iff.mp hs))
  | line hs hl =>
    refine .line (literal?_eq_none_of_append hs) (lineComment?_append_iff.mpr ?_)
    rw [List.append_assoc] at hl
    obtain ⟨hopen, line, he, hlen⟩ := lineComment?_append_iff.mp hl
    refine ⟨hopen, line, he, lineLength_append_iff.mpr ?_⟩
    obtain ⟨body, breaks, hbody, hb, hk, hn, hnext⟩ := lineLength_append_iff.mp hlen
    rw [hhead] at hnext
    exact ⟨body, breaks, hbody, hb, hk, fun h => absurd (List.append_eq_nil_iff.mp (hn h)).1 hw,
      hnext⟩
  | block hs hl hb =>
    have hline : literal? s.lineComment (c :: cs ++ w ++ r) = none := by
      simpa [lineComment?] using hl
    rw [List.append_assoc] at hb
    refine .block (literal?_eq_none_of_append hs) ?_
      (blockComment?_append_iff.mpr (blockComment?_append_iff.mp hb))
    simpa [lineComment?] using literal?_eq_none_of_append hline
  | quote hd hq =>
    rw [List.append_assoc] at hq
    obtain ⟨q, hm, b, he, hb, hnext⟩ := quotedString?_append_iff.mp hq
    rw [hhead] at hnext
    exact .quote hd.of_append (quotedString?_append_iff.mpr ⟨q, hm, b, he, hb, hnext⟩)
  | dollar hd hq ht =>
    rw [List.append_assoc] at ht
    exact .dollar hd.of_append (quotedString?_eq_none_of_append hq hend)
      (dollarQuote?_append_iff.mpr (dollarQuote?_append_iff.mp ht))
  | identifier hu hi =>
    rw [List.append_assoc] at hi
    obtain ⟨d, ds, he, hd, hds, hnext⟩ := identifier?_append_iff.mp hi
    rw [hhead] at hnext
    exact .identifier (hu.of_append hend) (identifier?_append_iff.mpr ⟨d, ds, he, hd, hds, hnext⟩)
  | blanks hu hi hb =>
    rw [List.append_assoc] at hb
    obtain ⟨hx, hall, hnext⟩ := blanks?_append_iff.mp hb
    rw [hhead] at hnext
    exact .blanks (hu.of_append hend)
      (identifier?_cons_eq_none_iff.mpr (identifier?_cons_eq_none_iff.mp hi))
      (blanks?_append_iff.mpr ⟨hx, hall, hnext⟩)
  | character hu hi hb hc =>
    rw [List.append_assoc] at hc
    exact .character (hu.of_append hend)
      (identifier?_cons_eq_none_iff.mpr (identifier?_cons_eq_none_iff.mp hi))
      (blanks?_cons_eq_none_iff.mpr (blanks?_cons_eq_none_iff.mp hb))
      (character?_append_iff.mpr (character?_append_iff.mp hc))

/-- Tokens that are read one after the other from the front of a text, and the text that is
left behind them. -/
inductive Front (s : Settings) : Text → List Token → Text → Prop where
  | nothing (w : Text) : Front s w [] w
  | token {t : Token} {ts : List Token} {w r : Text} :
      Leads s t w → Front s w ts r → Front s (t.text ++ w) (t :: ts) r

end Token

open Token

namespace TokenStream

/-- Where a text stands does not matter for the kinds and the texts of its tokens. -/
theorem content_read (s : Settings) (w : Text) (start start' : Nat) :
    (read s start w).tokens.map content = (read s start' w).tokens.map content ∧
      (read s start w).unclosed = (read s start' w).unclosed := by
  induction w using text_induction (s := s) generalizing start start' with
  | nil => simp [read_nil]
  | unclosed w why hw => simp [read_of_error _ hw]
  | token kind x v hx ih =>
    obtain ⟨htokens, hunclosed⟩ := ih (start + x.byteSize) (start' + x.byteSize)
    rw [read_of_leads (hx start) start, read_of_leads (hx start) start']
    exact ⟨by simp [content, htokens], hunclosed⟩

end TokenStream

namespace Token.Front
variable {s : Settings} {w r : Text} {ts us : List Token}

theorem spells (h : Front s w ts r) : w = ts.flatMap Token.text ++ r := by
  induction h with
  | nothing w => rfl
  | token _ _ ih => rw [List.flatMap_cons, List.append_assoc, ← ih]

/-- Reading tokens is reading the first of them and then the others. -/
theorem append_iff : Front s w (ts ++ us) r ↔ ∃ v, Front s w ts v ∧ Front s v us r := by
  constructor
  · intro h
    induction ts generalizing w with
    | nil => exact ⟨w, .nothing w, h⟩
    | cons t ts ih =>
      cases h with
      | token hlead hfront =>
        obtain ⟨v, hfirst, hrest⟩ := ih hfront
        exact ⟨v, .token hlead hfirst, hrest⟩
  · rintro ⟨v, hfirst, hrest⟩
    induction hfirst with
    | nothing w => exact hrest
    | token hlead _ ih => exact .token hlead (ih hrest)

theorem append {v : Text} (h : Front s w ts v) (k : Front s v us r) : Front s w (ts ++ us) r :=
  append_iff.mpr ⟨v, h, k⟩

/-- Reading can stop between any two tokens of a stream, and goes on from there. -/
theorem of_read {start : Nat} (h : (TokenStream.read s start w).tokens = ts ++ us) :
    ∃ r, Front s w ts r ∧
      (TokenStream.read s (start + Text.byteSize (ts.flatMap Token.text)) r).tokens = us ∧
      (TokenStream.read s (start + Text.byteSize (ts.flatMap Token.text)) r).unclosed =
        (TokenStream.read s start w).unclosed := by
  induction ts generalizing w start with
  | nil => exact ⟨w, .nothing w, h, rfl⟩
  | cons t ts ih =>
    rcases TokenStream.text_cases s w with rfl | ⟨why, hw⟩ | ⟨kind, x, v, rfl, hx⟩
    · rw [TokenStream.read_nil] at h
      cases h
    · rw [TokenStream.read_of_error start hw] at h
      cases h
    · rw [TokenStream.read_of_leads (hx start) start] at h ⊢
      obtain ⟨rfl, htail⟩ := List.cons.inj h
      obtain ⟨r, hfront, htokens, hunclosed⟩ := ih htail
      refine ⟨r, .token (hx start) hfront, ?_, ?_⟩
      · rw [List.flatMap_cons, Text.byteSize_append, ← Nat.add_assoc]
        exact htokens
      · rw [List.flatMap_cons, Text.byteSize_append, ← Nat.add_assoc]
        exact hunclosed

/-- The tokens at the front of a text are the first ones of its stream. -/
theorem content_read (h : Front s w ts r) (start : Nat) :
    (TokenStream.read s start w).tokens.map content =
        ts.map content ++ (TokenStream.read s 0 r).tokens.map content ∧
      (TokenStream.read s start w).unclosed = (TokenStream.read s 0 r).unclosed := by
  induction h generalizing start with
  | nothing w => exact TokenStream.content_read s w start 0
  | @token t ts w r ht _ ih =>
    obtain ⟨htokens, hunclosed⟩ := ih (start + t.text.byteSize)
    rw [TokenStream.read_of_leads ht start]
    exact ⟨by simp [content, htokens], hunclosed⟩

theorem leads_of_mem (h : Front s w ts r) : ∀ t ∈ ts, ∃ v, Leads s t v := by
  induction h with
  | nothing w => simp
  | @token t ts w r ht _ ih =>
    intro u hu
    rcases List.mem_cons.mp hu with rfl | hu
    · exact ⟨w, ht⟩
    · exact ih u hu

/-- The text behind a separator that does not end with a quote can be cut off. Behind a quote
the cut could close a literal that a second quote has kept open. -/
theorem cut {t : Token} (h : Front s w (ts ++ [t]) r) (ht : t.kind = .separator)
    (hlast : ∀ c ∈ t.text.getLast?, c ∉ Lexeme.quotes) :
    Front s ((ts ++ [t]).flatMap Token.text) (ts ++ [t]) [] := by
  obtain ⟨-, hne, -⟩ := h.leads_of_mem t (by simp)
  induction ts generalizing w with
  | nil =>
    cases h with
    | token hlead _ => exact .token (hlead.of_separator ht []) (.nothing [])
  | cons u ts ih =>
    cases h with
    | token hlead hfront =>
      have htext : (ts ++ [t]).flatMap Token.text = ts.flatMap Token.text ++ t.text := by simp
      have hrest : (ts ++ [t]).flatMap Token.text ≠ [] := by simp [htext, hne]
      have hend : ∀ c ∈ ((ts ++ [t]).flatMap Token.text).getLast?, c ∉ Lexeme.quotes := by
        rwa [htext, List.getLast?_append_of_ne_nil _ hne]
      rw [hfront.spells] at hlead
      exact .token (hlead.of_append hrest hend) (ih hfront)

end Token.Front
end SqlStatements
