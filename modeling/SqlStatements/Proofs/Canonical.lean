import SqlStatements.Proofs.Keywords
import SqlStatements.Proofs.Recursion

namespace SqlStatements

namespace Token
open Lexeme

variable {s : Settings} {t u : Token} {w : Text}

/-- The tokens are not both names, and not both blanks. -/
def StandApart (t u : Token) : Prop := t.kind = u.kind → t.kind ≠ .identifier ∧ t.kind ≠ .whitespace

/-- A character is left alone only if neither a name nor blanks begin with it. -/
theorem Leads.text_of_other (h : Leads s t w) (hk : t.kind = .other) :
    ∃ c, t.text = [c] ∧ c.isAlpha = false ∧ isAsciiBlank c = false := by
  obtain ⟨kind, x, start⟩ := t
  obtain ⟨-, hc⟩ := h
  dsimp only at hk hc ⊢
  subst hk
  cases hc with
  | character _ hi hb hch =>
    obtain ⟨c, rfl⟩ := character?_append_iff.mp hch
    exact ⟨c, rfl, identifier?_cons_eq_none_iff.mp hi, blanks?_cons_eq_none_iff.mp hb⟩

/-- Blanks take all the blanks that follow. -/
theorem Leads.head_of_whitespace (h : Leads s t w) (hk : t.kind = .whitespace) :
    (∃ c ∈ t.text.head?, isAsciiBlank c = true) ∧ ∀ c ∈ w.head?, isAsciiBlank c = false := by
  obtain ⟨kind, x, start⟩ := t
  obtain ⟨hne, hc⟩ := h
  dsimp only at hk hne hc ⊢
  subst hk
  cases hc with
  | blanks _ _ hb =>
    obtain ⟨-, hall, hw⟩ := blanks?_append_iff.mp hb
    exact ⟨⟨x.head hne, List.head?_eq_some_head hne, hall _ (List.head_mem hne)⟩, hw⟩

/-- Behind a name or blanks the same kind does not begin again, since the first token would have
gone on. -/
theorem Leads.standApart (h : Leads s t (u.text ++ w)) (k : Leads s u w) : t.StandApart u := by
  have hhead : (u.text ++ w).head? = u.text.head? := List.head?_append_of_ne_nil _ k.1
  intro hkind
  constructor
  · intro ht
    obtain ⟨⟨c, hc, halpha⟩, -⟩ := k.head_of_identifier (hkind ▸ ht)
    have hword := (h.head_of_identifier ht).2 c (hhead ▸ hc)
    rw [isWordPart_of_isAlpha halpha] at hword
    cases hword
  · intro ht
    obtain ⟨⟨c, hc, hblank⟩, -⟩ := k.head_of_whitespace (hkind ▸ ht)
    have hnone := (h.head_of_whitespace ht).2 c (hhead ▸ hc)
    rw [hblank] at hnone
    cases hnone

end Token

namespace Assembly

/-- Outside of blocks the buffer does not end with a blank of ASCII. -/
def Solid (a : Assembly) : Prop :=
  a.mode.isInside = false → ∀ c ∈ a.buffer.text.getLast?, isAsciiBlank c = false

variable {a : Assembly} {t : Token}

/-- Outside of blocks a significant token is written behind the gap, whether it opens a block or
not. -/
theorem buffer_read_significant (hm : a.mode = .standard) (ht : t.isSignificant = true) :
    (a.read t).buffer = (a.fillGap t).buffer.push t.text := by
  cases hb : t.isBegin with
  | true =>
    rw [read_begin hm hb]
    rfl
  | false =>
    rw [read_significant hm ht hb]
    rfl

/-- The statement of the outermost block ends with the block. -/
theorem buffer_close {below : List Frame} (h : (a.close below).mode.isInside = false) :
    (a.close below).buffer = .empty := by
  cases below with
  | nil => rfl
  | cons top below => cases h

/-- Where a token or the end of the input leads out of all blocks the buffer is emptied. -/
theorem buffer_of_exit (hi : a.mode.isInside = true) (hx : (a.read t).mode.isInside = false) :
    (a.read t).buffer = .empty := by
  cases hm : a.mode with
  | standard => rw [hm] at hi; cases hi
  | finished => rw [hm] at hi; cases hi
  | block top below =>
    rw [read_block hm, readBlock] at hx ⊢
    by_cases he : t.isEof = true
    · simp [he]
    by_cases hb : t.isBegin = true
    · simp [he, hb, Mode.isInside] at hx
    by_cases hend : t.isEnd = true <;> simp [he, hb, hend, hm, Mode.isInside] at hx
  | closing top below held =>
    cases he : t.isEof with
    | true =>
      have hr : a.read t = a.close below := by simp [read_closing hm, readClosing, he]
      rw [hr] at hx ⊢
      exact buffer_close hx
    | false =>
      rcases read_closing_cases hm he with ⟨-, hr⟩ | ⟨-, -, -, hr⟩ | ⟨-, -, -, hr⟩ | ⟨-, -, hr⟩
      · rw [hr] at hx
        cases hx
      · rw [hr] at hx ⊢
        exact buffer_close hx
      · rw [hr] at hx ⊢
        exact buffer_close hx
      · rw [hr] at hx
        cases hx

/-- A step keeps the end of the buffer, writes a significant token there, or empties the buffer. -/
theorem Solid.read (h : a.Solid)
    (ht : t.isSignificant = true → ∃ c ∈ t.text.getLast?, isAsciiBlank c = false) :
    (a.read t).Solid := by
  intro hx
  cases hm : a.mode with
  | standard =>
    have ha := h (by rw [hm]; rfl)
    cases hs : t.isSignificant with
    | true =>
      -- the token has text, so the gap before it is not what the buffer ends with
      obtain ⟨c, hc, hb⟩ := ht hs
      rw [buffer_read_significant hm hs, Buffer.text_push, List.getLast?_append,
        Option.mem_def.mp hc]
      simpa using hb
    | false =>
      rw [read_standard hm, readStandard]
      obtain ⟨kind, x, start⟩ := t
      cases kind with
      | separator => simp
      | comment => exact ha
      | whitespace => exact ha
      | eof => simp
      | identifier => cases hs
      | quotedString => cases hs
      | other => cases hs
  | block top below =>
    rw [buffer_of_exit (by rw [hm]; rfl) hx]
    simp
  | closing top below held =>
    rw [buffer_of_exit (by rw [hm]; rfl) hx]
    simp
  | finished =>
    rw [read_finished hm]
    exact h (by rw [hm]; rfl)

end Assembly

namespace Cursor
open Assembly

variable {c d : Cursor} {a b : Assembly} {t : Token} {ts : List Token}

/-- The token before the end is what the text ahead begins with. -/
theorem leads_nextToken (h : c.nextToken = (.ok t, d)) (he : t.isEof = false) :
    Token.Leads c.settings t d.remaining := by
  refine ⟨text_ne_nil h he, ?_⟩
  have hne := remaining_ne_nil h he
  unfold nextToken at h
  split at h
  · cases h
  · rename_i kind n hc
    cases h
    obtain ⟨-, hl⟩ := Token.fits_classify hne hc
    simp only [advance, List.take_append_drop, List.length_take, Nat.min_eq_left hl]
    exact Token.classify_eq_ok_iff.mp hc

namespace Reads

theorem leads (h : c.Reads ts d) : ∀ t ∈ ts, ∃ w, Token.Leads c.settings t w := by
  induction h with
  | nothing c => simp
  | @token c d e t ts hn he _ ih =>
    obtain ⟨-, -, -, hsettings⟩ := nextToken_shape hn
    rw [hsettings] at ih
    exact List.forall_mem_cons.mpr ⟨⟨d.remaining, leads_nextToken hn he⟩, ih⟩

theorem standApart (h : c.Reads ts d) : ts.IsChain Token.StandApart := by
  induction h with
  | nothing c => exact .nil
  | @token c d e t ts hn he hrest ih =>
    cases hrest with
    | nothing _ => exact .singleton t
    | token hn' he' _ =>
      obtain ⟨-, -, -, hsettings⟩ := nextToken_shape hn
      obtain ⟨-, hremaining, -, -⟩ := nextToken_shape hn'
      have hlead := leads_nextToken hn he
      rw [hremaining, ← hsettings] at hlead
      exact .cons_cons (hlead.standApart (leads_nextToken hn' he')) ih

end Reads

/-- A run comes through solid assemblies only, also where it reads the end of the input. -/
theorem Runs.solid {p : Assembly.Mode → Prop} (h : Runs p c a d b) (ha : a.Solid) : b.Solid := by
  induction h with
  | stays c a => exact ha
  | reads _ hn _ ih =>
    apply ih
    apply ha.read
    -- at the end of the input nothing leads the text, but what is read there is not significant
    intro hs
    exact (leads_nextToken hn (Token.isEof_eq_false_of_isSignificant hs)).solid hs

/-- Whatever the script and the delimiters are, empty ones included, and wherever a cursor begins,
the tokens that it reads are in a canonical form: no name and no blanks are cut in two, a character
that is left alone is neither a letter nor a blank, and no significant token begins or ends with a
blank. So the run of a split from there never comes to a gap behind a blank, and the look that it
takes at the end of the buffer keeps no gap from being written. -/
theorem tokens_are_canonical (c : Cursor) :
    (∀ ts d, c.Reads ts d →
      ts.IsChain Token.StandApart ∧
      (∀ t ∈ ts, t.kind = .other →
        ∃ x, t.text = [x] ∧ x.isAlpha = false ∧ isAsciiBlank x = false) ∧
      ∀ t ∈ ts, t.isSignificant = true →
        (∃ x ∈ t.text.head?, isAsciiBlank x = false) ∧
          ∃ x ∈ t.text.getLast?, isAsciiBlank x = false) ∧
    ∀ d a, Runs (· ≠ .finished) c .empty d a →
      c.split = d.assemble a ∧
      (a.mode = .standard →
        (∀ x ∈ a.buffer.text.getLast?, isAsciiBlank x = false) ∧
        ∀ t, a.fillGap t = a.writeGap t ∧
          (t.isSignificant = true →
            (a.read t).buffer.text = (a.writeGap t).buffer.text ++ t.text)) := by
  constructor
  · intro ts d h
    refine ⟨h.standApart, ?_, ?_⟩
    · intro t ht hk
      obtain ⟨w, hlead⟩ := h.leads t ht
      exact hlead.text_of_other hk
    · intro t ht hs
      obtain ⟨w, hlead⟩ := h.leads t ht
      exact hlead.solid_ends hs
  · intro d a h
    refine ⟨h.assemble (fun _ hm => hm), ?_⟩
    intro hm
    have hempty : empty.Solid := by simp [Solid, empty]
    have hlast := h.solid hempty (by rw [hm]; rfl)
    refine ⟨hlast, fun t => ⟨fillGap_eq_writeGap hlast t, ?_⟩⟩
    intro hs
    rw [buffer_read_significant hm hs, fillGap_eq_writeGap hlast, Buffer.text_push]

/-- A gap with a comment before it, between two literals behind a block, where there is no
separator. -/
theorem tokens_are_canonical_behind_block :
    let c := start { Settings.standard with separator := [] } "BEGIN END;'a'--c\n\t\n'b'".toList
    let ts : List Token := [⟨.identifier, "BEGIN".toList, 0⟩, ⟨.whitespace, [' '], 5⟩,
      ⟨.identifier, "END".toList, 6⟩, ⟨.other, [';'], 9⟩, ⟨.quotedString, "'a'".toList, 10⟩,
      ⟨.comment, "--c\n".toList, 13⟩, ⟨.whitespace, ['\t', '\n'], 17⟩]
    let t : Token := ⟨.quotedString, "'b'".toList, 19⟩
    ∃ d a, c.Reads ts d ∧ Runs (· ≠ .finished) c .empty d a ∧ d.nextToken.1 = .ok t ∧
      a.mode = .standard ∧ a.gap = .lineBreak ∧
      ts.IsChain Token.StandApart ∧ c.split = d.assemble a ∧
      a.fillGap t = a.writeGap t ∧ (a.read t).buffer.text = "'a'\n'b'".toList := by
  intro c ts t
  have hreads : c.Reads ts _ := .token rfl rfl (.token rfl rfl (.token rfl rfl (.token rfl rfl
    (.token rfl rfl (.token rfl rfl (.token rfl rfl (.nothing _)))))))
  have hruns : Runs (· ≠ .finished) c .empty _ _ := .reads (by decide) rfl (.reads (by decide) rfl
    (.reads (by decide) rfl (.reads (by decide) rfl (.reads (by decide) rfl
      (.reads (by decide) rfl (.reads (by decide) rfl (.stays _ _)))))))
  obtain ⟨htokens, hsplit⟩ := tokens_are_canonical c
  obtain ⟨hsame, hstandard⟩ := hsplit _ _ hruns
  obtain ⟨hfill, hread⟩ := (hstandard (by decide +kernel)).2 t
  exact ⟨_, _, hreads, hruns, rfl, by decide +kernel, by decide +kernel, (htokens _ _ hreads).1,
    hsame, hfill, (hread (by decide)).trans (by decide +kernel)⟩

end Cursor
end SqlStatements
