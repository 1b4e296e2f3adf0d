import SqlStatements.Proofs.Detection
import SqlStatements.Proofs.Gaps
import SqlStatements.Proofs.Resuming
import SqlStatements.Proofs.Squeezing

namespace SqlStatements

/-- A text without quotes, dollar signs, semicolons and openers of comments. -/
structure Text.Bare (t : Text) : Prop where
  quote : ∀ c ∈ t, c ∉ Lexeme.quotes
  dollar : '$' ∉ t
  semicolon : ';' ∉ t
  line : ¬ ['-', '-'] <:+: t
  block : ¬ ['/', '*'] <:+: t

theorem Text.Bare.of_append {x y : Text} (h : Bare (x ++ y)) : Bare y := by
  have hsuffix : y <:+ x ++ y := List.suffix_append x y
  exact ⟨fun c hc => h.quote c (hsuffix.mem hc), fun hc => h.dollar (hsuffix.mem hc),
    fun hc => h.semicolon (hsuffix.mem hc), fun hc => h.line (hc.trans hsuffix.isInfix),
    fun hc => h.block (hc.trans hsuffix.isInfix)⟩

theorem Text.bare_of_signs {t : Text} (hquote : ∀ c ∈ t, c ∉ Lexeme.quotes)
    (hsigns : ∀ c ∈ ['$', ';', '-', '/'], c ∉ t) : t.Bare := by
  refine ⟨hquote, hsigns '$' (by simp), hsigns ';' (by simp), ?_, ?_⟩
  · intro h
    exact hsigns '-' (by simp) (h.mem (by simp))
  · intro h
    exact hsigns '/' (by simp) (h.mem (by simp))

def Settings.byLine : Settings := { Settings.standard with separator := Separator.lineBreak }

namespace Token
open Lexeme

def IsBlanks (t : Token) : Prop :=
  t.kind = .whitespace ∧ t.text ≠ [] ∧ ∀ c ∈ t.text, isAsciiBlank c = true

/-- A name or a sign. -/
def IsWord (t : Token) : Prop :=
  (t.kind = .identifier ∨ t.kind = .other) ∧ t.text ≠ [] ∧ ∀ c ∈ t.text, isAsciiBlank c = false

theorem classify_ne_error_of_bare {w : Text} (h : w.Bare) (why : Unclosed) :
    classify .byLine w ≠ .error why := by
  have hblock : blockComment? Settings.byLine.blockOpen Settings.byLine.blockClose w =
      .ok none := by
    rw [blockComment?_eq_none_iff, ← Option.not_isSome_iff_eq_none, Option.isSome_iff_exists]
    rintro ⟨n, hn⟩
    exact h.block (literal?_eq_some_iff.mp hn).2.1.isInfix
  have hdollar : dollarQuote? w = .ok none := by
    rw [dollarQuote?_eq_none_iff, ← Option.not_isSome_iff_eq_none, Option.isSome_iff_exists]
    rintro ⟨tag, ht⟩
    obtain ⟨⟨word, -, rfl⟩, hp⟩ := dollarTag?_eq_some_iff.mp ht
    exact h.dollar (hp.mem (by simp))
  intro hc
  unfold classify at hc
  simp only [hblock, hdollar] at hc
  repeat' split at hc
  all_goals cases hc

/-- The tokens of a bare text. Blanks do not begin with a line break, and end before the next
character that is none. -/
theorem Leads.cases_of_bare {t : Token} {w : Text} (h : Leads .byLine t w)
    (hb : (t.text ++ w).Bare) :
    t.kind = .separator ∨
      (t.IsBlanks ∧ t.text.head? ≠ some '\n' ∧ ∀ c ∈ w.head?, isAsciiBlank c = false) ∨
        t.IsWord := by
  obtain ⟨kind, x, start⟩ := t
  have hnonblank := Leads.nonblank_of_identifier h
  obtain ⟨hne, hc⟩ := h
  dsimp only at hne hc hb hnonblank ⊢
  generalize hn : x.length = n at hc
  cases hc with
  | separator hs => exact .inl rfl
  | line _ hl =>
    obtain ⟨-, line, rfl, -⟩ := lineComment?_append_iff.mp (hn ▸ hl)
    exact absurd ⟨[], line ++ w, by simp; rfl⟩ hb.line
  | block _ _ hl =>
    obtain ⟨-, body, n, rfl, -, -⟩ := blockComment?_append_iff.mp (hn ▸ hl)
    exact absurd ⟨[], body ++ w, by simp; rfl⟩ hb.block
  | quote _ hq =>
    obtain ⟨q, hmem, b, rfl, -, -⟩ := quotedString?_append_iff.mp (hn ▸ hq)
    exact absurd hmem (hb.quote q (by simp))
  | dollar _ _ hd =>
    obtain ⟨tag, body, n, ⟨word, -, rfl⟩, rfl, -, -⟩ := dollarQuote?_append_iff.mp (hn ▸ hd)
    exact absurd (by simp) hb.dollar
  | identifier _ _ =>
    exact .inr (.inr ⟨.inl rfl, hne, fun c hc => isAsciiBlank_eq_false (hnonblank rfl c hc)⟩)
  | blanks hu _ hb =>
    obtain ⟨-, hall, hnext⟩ := blanks?_append_iff.mp (hn ▸ hb)
    refine .inr (.inl ⟨⟨rfl, hne, hall⟩, ?_, hnext⟩)
    intro hbreak
    obtain ⟨y, rfl⟩ := List.head?_eq_some_iff.mp hbreak
    have hs : literal? ['\n'] (['\n'] ++ (y ++ w)) = none := hu.separator
    rw [literal?_append_iff.mpr ⟨List.cons_ne_nil _ _, rfl⟩] at hs
    cases hs
  | character _ _ hb hc =>
    obtain ⟨c, rfl⟩ := character?_append_iff.mp (hn ▸ hc)
    refine .inr (.inr ⟨.inr rfl, hne, ?_⟩)
    simpa using blanks?_cons_eq_none_iff.mp hb
  | eof he => exact absurd (List.append_eq_nil_iff.mp he).1 hne

/-- The tokens of a segment, and the piece of the text that they spell. -/
def Spells (seg : List Token) (piece : Text) : Prop :=
  seg.flatMap text = piece ∧ ∀ t ∈ seg, t.IsBlanks ∨ t.IsWord

theorem Spells.cons {t : Token} {seg : List Token} {piece : Text} (h : Spells seg piece)
    (ht : t.IsBlanks ∨ t.IsWord) : Spells (t :: seg) (t.text ++ piece) := by
  refine ⟨by rw [List.flatMap_cons, h.1], ?_⟩
  intro u hu
  rcases List.mem_cons.mp hu with rfl | hu
  · exact ht
  · exact h.2 u hu

/-- The separators are the line breaks at which a bare text is cut. -/
theorem Chain.spells {ts : List Token} (h : Chain .byLine ts) (hb : Text.Bare (ts.flatMap text)) :
    List.Forall₂ Spells (ts.splitOnP (·.kind == .separator))
      (Text.pieces false (ts.flatMap text)) := by
  induction ts with
  | nil => exact .cons ⟨rfl, by simp⟩ .nil
  | cons t ts ih =>
    obtain ⟨hlead, hts⟩ := h
    rw [List.flatMap_cons] at hb ⊢
    have hrest := ih hts hb.of_append
    have hcons (ht : t.IsBlanks ∨ t.IsWord) (hk : t.kind ≠ .separator)
        (hpieces : Text.pieces false (t.text ++ ts.flatMap text) =
          (Text.pieces false (ts.flatMap text)).modifyHead (t.text ++ ·)) :
        List.Forall₂ Spells ((t :: ts).splitOnP (·.kind == .separator))
          (Text.pieces false (t.text ++ ts.flatMap text)) := by
      rw [hpieces, List.splitOnP_cons_eq_if_modifyHead, if_neg (by simpa using hk)]
      generalize ts.splitOnP (·.kind == .separator) = segs at hrest ⊢
      generalize Text.pieces false (ts.flatMap text) = pieces at hrest ⊢
      cases hrest with
      | nil => exact .nil
      | cons hseg hsegs => exact .cons (hseg.cons ht) hsegs
    rcases hlead.cases_of_bare hb with hk | ⟨ht, hbreak, hnext⟩ | ht
    · have htext : t.text = ['\n'] := hlead.text_of_separator hk
      rw [List.splitOnP_cons_eq_if_modifyHead, if_pos (by simp [hk]), htext]
      exact .cons ⟨rfl, by simp⟩ hrest
    · exact hcons (.inl ht) (by simp [ht.1]) (Text.pieces_append ht.2.2 hbreak hnext)
    · exact hcons (.inr ht) (by rcases ht.1 with hk | hk <;> simp [hk])
        (Text.pieces_solid ht.2.1 ht.2.2 false _)

end Token

namespace Rendering
open Token

theorem between_of_ne_quotedString {u v : Token} (hv : v.kind ≠ .quotedString)
    (blanks : List Token) : between u blanks v = if blanks = [] then [] else [' '] := by
  unfold between
  cases hw : blanks.getLast? with
  | none => simp [List.getLast?_eq_none_iff.mp hw]
  | some w =>
    have hne : blanks ≠ [] := by
      rintro rfl
      cases hw
    simp [hv, hne]

/-- What tokens add to a segment is their text with the blanks squeezed. -/
theorem exists_added_eq {ts : List Token} (h : ∀ t ∈ ts, t.IsBlanks ∨ t.IsWord)
    (last : Option Token) (blanks : List Token) :
    ∃ l r, Text.isAllBlank l = true ∧ Text.isAllBlank r = true ∧ (last.isSome → l = []) ∧
      l ++ added last blanks ts ++ r =
        (if blanks = [] then [] else [' ']) ++
          Text.squeeze (!blanks.isEmpty) (ts.flatMap text) := by
  have hgap (blanks : List Token) :
      Text.isAllBlank (if blanks = [] then [] else [' ']) = true := by
    split <;> decide
  induction ts generalizing last blanks with
  | nil => exact ⟨[], _, rfl, hgap blanks, fun _ => rfl, by simp [added_nil, Text.squeeze]⟩
  | cons t ts ih =>
    have hrest := ih (fun u hu => h u (by simp [hu]))
    rw [List.flatMap_cons]
    rcases h t (by simp) with ⟨hk, hne, hall⟩ | ⟨hk, hne, hall⟩
    · obtain ⟨l, r, hl, hr, hlast, he⟩ := hrest last (blanks ++ [t])
      refine ⟨l, r, hl, hr, hlast, ?_⟩
      rw [added_whitespace hk, he]
      cases blanks with
      | nil => simp [Text.squeeze_blanks_false hne hall]
      | cons w ws => simp [Text.squeeze_blanks hall]
    · have htrivia : t.isTrivia = false := by rcases hk with hk | hk <;> simp [isTrivia, hk]
      have hquoted : t.kind ≠ .quotedString := by rcases hk with hk | hk <;> simp [hk]
      obtain ⟨l, r, -, hr, hlast, he⟩ := hrest (some t) []
      obtain rfl := hlast rfl
      rw [added_significant htrivia, Text.squeeze_solid hne hall]
      have hadded : added (some t) [] ts ++ r = Text.squeeze false (ts.flatMap text) := by
        simpa using he
      cases last with
      | none =>
        refine ⟨_, r, hgap blanks, hr, by simp, ?_⟩
        rw [filling, List.nil_append, ← hadded]
        simp only [List.append_assoc]
      | some u =>
        refine ⟨[], r, rfl, hr, fun _ => rfl, ?_⟩
        rw [filling, between_of_ne_quotedString hquoted, ← hadded]
        simp only [List.nil_append, List.append_assoc]

theorem kept_segment {seg : List Token} {piece : Text} (h : Spells seg piece) :
    (segment seg).kept = piece.squeezed := by
  obtain ⟨rfl, hseg⟩ := h
  obtain ⟨l, r, hl, hr, -, he⟩ := exists_added_eq hseg none []
  rw [Text.squeezed, segment_eq]
  have hsqueeze : Text.squeeze false (seg.flatMap text) = l ++ added none [] seg ++ r := by
    simpa using he.symm
  rw [hsqueeze, Text.kept_append_right hr, Text.kept_append_left hl]

theorem flatMap_kept_segment {segs : List (List Token)} {pieces : List Text}
    (h : List.Forall₂ Spells segs pieces) :
    segs.flatMap (Text.kept ∘ segment) = pieces.flatMap Text.squeezed := by
  induction h with
  | nil => rfl
  | cons hseg _ ih =>
    rw [List.flatMap_cons, List.flatMap_cons, ih, Function.comp_apply, kept_segment hseg]

end Rendering

namespace TokenStream

theorem unclosed_read_of_bare {w : Text} (h : w.Bare) (start : Nat) :
    (read .byLine start w).unclosed = none := by
  induction w using text_induction (s := .byLine) generalizing start with
  | nil => rw [read_nil]
  | unclosed w why hw => exact absurd hw (Token.classify_ne_error_of_bare h why)
  | token kind x v hx ih =>
    rw [read_of_leads (hx start) start]
    exact ih h.of_append _

end TokenStream

theorem Separator.resolve_of_bare {ε : Type} {script : Text} (h : script.Bare) :
    (resolve script none : Logged ε Text).result = .ok lineBreak := by
  have hunused : isUsed script usual = false := by
    rw [Bool.eq_false_iff]
    intro hused
    obtain ⟨before, c, rest, after, -, he, -⟩ := isUsed_iff.mp hused
    exact h.semicolon (by rw [he]; simp [usual])
  rw [resolve, Option.getD_none, hunused]
  rfl

open Rendering

/-- A bare script falls back to line breaks, and is cut at all of them but those that blanks
take along. The statements are those of its lines exactly if no blanks take two lines together
that are not blank, for instance if there are no blanks at the ends of lines. -/
theorem split_at_line_breaks {ε : Type} {script : Text} (h : script.Bare)
    (hb : ∀ t ∈ (TokenStream.read .byLine 0 script).tokens, t.isBegin = false) :
    (Separator.resolve script none : Logged ε Text).result =
        .ok Settings.byLine.separator ∧
      (split .byLine script).result = .ok ((Text.pieces false script).flatMap Text.squeezed) ∧
      ((split .byLine script).result = .ok (script.lines.flatMap Text.squeezed) ↔
        ∀ p ∈ Text.pieces false script, p.isOneLine = true) ∧
      (script.EndsSolid → ∀ p ∈ Text.pieces false script, p.isOneLine = true) := by
  have hs := TokenStream.unclosed_read_of_bare h 0
  obtain ⟨hchain, htext⟩ := TokenStream.chain_read hs
  have hpieces := hchain.spells (by rwa [← TokenStream.text, htext])
  rw [← TokenStream.text, htext] at hpieces
  have hsplit : (split .byLine script).result =
      .ok ((Text.pieces false script).flatMap Text.squeezed) := by
    rw [result_split_of_valid rfl, splitUnchecked_ok_iff]
    refine ⟨hs, ?_⟩
    rw [Assembly.fresh_empty.statements hchain hb, statements_eq, flatMap_kept_segment hpieces]
    rfl
  refine ⟨Separator.resolve_of_bare h, hsplit, ?_, ?_⟩
  · rw [hsplit, Except.ok.injEq, Text.flatMap_squeezed_pieces_iff]
  · intro hsolid p hp
    exact Text.isOneLine_of_mem_pieces hsolid hp

/-- The first line ends with a carriage return, which takes the empty line and the next one
along. -/
theorem split_at_line_breaks_after_carriage_return :
    (Separator.resolve "a\tb\r\n\nc\n  d".toList none : Logged Failure Text).result = .ok ['\n'] ∧
      (split .byLine "a\tb\r\n\nc\n  d".toList).result =
        .ok ["a b c".toList, ['d']] := by
  have hbare : Text.Bare "a\tb\r\n\nc\n  d".toList :=
    Text.bare_of_signs (by simp [Lexeme.quotes]) (by simp)
  obtain ⟨hresolve, hsplit, -⟩ := @split_at_line_breaks Failure _ hbare (by decide +kernel)
  refine ⟨hresolve, hsplit.trans ?_⟩
  decide +kernel

/-- A carriage return before the line break joins two lines. -/
theorem not_every_line_is_a_statement :
    ¬ ∀ script : Text, script.Bare →
      (∀ t ∈ (TokenStream.read .byLine 0 script).tokens, t.isBegin = false) →
      (Separator.resolve script none : Logged Failure Text).result =
          .ok Settings.byLine.separator ∧
        (split .byLine script).result = .ok (script.lines.flatMap Text.squeezed) := by
  intro h
  have hbare : Text.Bare "1\r\n2".toList :=
    Text.bare_of_signs (by simp [Lexeme.quotes]) (by simp)
  have hsplit : (split .byLine "1\r\n2".toList).result = .ok ["1 2".toList] := by
    rw [result_split_of_valid rfl, splitUnchecked_ok_iff]
    decide +kernel
  have hlines := (h _ hbare (by decide +kernel)).2
  rw [hsplit] at hlines
  revert hlines
  decide +kernel

end SqlStatements
