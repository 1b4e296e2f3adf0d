import SqlStatements.Proofs.Failing
import SqlStatements.Proofs.Positions

namespace SqlStatements

namespace Lexeme

theorem indexOf?_eq_none_iff {wanted text : Text} :
    Text.indexOf? wanted text = none ↔ ¬ wanted <:+: text := by
  induction text with
  | nil => simp [indexOf?_nil]
  | cons c text ih =>
    rw [Text.indexOf?, List.infix_cons_iff, ← List.isPrefixOf_iff_prefix]
    by_cases hp : wanted.isPrefixOf (c :: text) = true
    · simp [hp]
    · simp [hp, ih]

theorem literal?_eq_none_iff {literal rest : Text} (h : literal ≠ []) :
    literal? literal rest = none ↔ ¬ literal <+: rest := by
  simp [literal?, h]

theorem lineComment?_eq_none_iff {opener rest : Text} :
    lineComment? opener rest = none ↔ literal? opener rest = none :=
  Option.map_eq_none_iff

/-- A block comment stays open if its end is nowhere behind its start. -/
theorem blockComment?_eq_error_iff {opener closer rest : Text} {why : Unclosed} :
    blockComment? opener closer rest = .error why ↔
      why = .blockComment ∧ literal? opener rest = some opener.length ∧
        ¬ closer <:+: rest.drop opener.length := by
  unfold blockComment?
  cases hs : literal? opener rest with
  | none => simp
  | some start =>
    obtain ⟨-, -, rfl⟩ := literal?_eq_some_iff.mp hs
    rw [← indexOf?_eq_none_iff]
    cases hc : Text.indexOf? closer (rest.drop opener.length) <;> simp [hc, eq_comm]

/-- A dollar quote stays open if its tag does not come again. -/
theorem dollarQuote?_eq_error_iff {rest : Text} {why : Unclosed} :
    dollarQuote? rest = .error why ↔
      ∃ tag, why = .dollarQuote tag ∧ (IsTag tag ∧ tag <+: rest) ∧
        ¬ tag <:+: rest.drop tag.length := by
  simp only [← dollarTag?_eq_some_iff, ← indexOf?_eq_none_iff]
  unfold dollarQuote?
  cases dollarTag? rest with
  | none => simp
  | some tag => cases ht : Text.indexOf? tag (rest.drop tag.length) <;> simp [ht, eq_comm]

/-- A dollar sign opens no quoted string. -/
theorem quotedString?_eq_none_of_tag {tag rest : Text} (h : IsTag tag) (hp : tag <+: rest) :
    quotedString? rest = none := by
  obtain ⟨word, -, rfl⟩ := h
  obtain ⟨after, rfl⟩ := hp
  exact (quotedString?_cons '$' _).trans (if_neg (by decide))

end Lexeme

namespace Token
open Lexeme

/-- No token can be read where a block comment or a dollar quote stays open and nothing before
it in the order of the matchers applies. -/
theorem classify_eq_error_iff {s : Settings} {rest : Text} {why : Unclosed} :
    classify s rest = .error why ↔
      literal? s.separator rest = none ∧ lineComment? s.lineComment rest = none ∧
        (blockComment? s.blockOpen s.blockClose rest = .error why ∨
          blockComment? s.blockOpen s.blockClose rest = .ok none ∧
            dollarQuote? rest = .error why) := by
  constructor
  · intro h
    unfold classify at h
    split at h
    · cases h
    rename_i hs
    split at h
    · cases h
    rename_i hl
    refine ⟨hs, hl, ?_⟩
    split at h
    · rename_i hb
      cases h
      exact .inl hb
    · cases h
    rename_i hb
    split at h
    · cases h
    split at h
    · rename_i hd
      cases h
      exact .inr ⟨hb, hd⟩
    · cases h
    repeat' split at h
    all_goals cases h
  · rintro ⟨hs, hl, hb | ⟨hb, hd⟩⟩
    · simp [classify, hs, hl, hb]
    · obtain ⟨tag, -, ⟨htag, hp⟩, -⟩ := dollarQuote?_eq_error_iff.mp hd
      simp [classify, hs, hl, hb, quotedString?_eq_none_of_tag htag hp, hd]

/-- The text begins with an opener that is never closed, and `cause` reports it with its place. -/
inductive NeverClosed (s : Settings) (rest : Text) (place : Position) : ParseFailure → Prop where
  | comment :
      ¬ s.separator <+: rest → ¬ s.lineComment <+: rest → s.blockOpen <+: rest →
      ¬ s.blockClose <:+: rest.drop s.blockOpen.length →
      NeverClosed s rest place (.unclosedComment s.blockClose place)
  | dollarQuote {tag : Text} :
      ¬ s.separator <+: rest → ¬ s.lineComment <+: rest → ¬ s.blockOpen <+: rest →
      IsTag tag → tag <+: rest → ¬ tag <:+: rest.drop tag.length →
      NeverClosed s rest place (.unclosedDollarQuote tag place)

theorem neverClosed_iff {s : Settings} (hs : s.validate = .ok ()) {rest : Text} {place : Position}
    {cause : ParseFailure} :
    NeverClosed s rest place cause ↔
      ∃ why, classify s rest = .error why ∧
        Failure.unclosed s place why = .parse s.resource cause := by
  obtain ⟨hsep, hline, hopen, -⟩ := Settings.validate_eq_ok_iff.mp hs
  have hblock : literal? s.blockOpen rest = some s.blockOpen.length ↔ s.blockOpen <+: rest := by
    simp [literal?_eq_some_iff, hopen]
  simp only [classify_eq_error_iff, lineComment?_eq_none_iff, literal?_eq_none_iff hsep,
    literal?_eq_none_iff hline, blockComment?_eq_error_iff, blockComment?_eq_none_iff,
    literal?_eq_none_iff hopen, hblock, dollarQuote?_eq_error_iff]
  constructor
  · intro h
    cases h with
    | comment hs hl hb hc => exact ⟨.blockComment, ⟨hs, hl, .inl ⟨rfl, hb, hc⟩⟩, rfl⟩
    | @dollarQuote tag hs hl hb htag hp hc =>
      exact ⟨.dollarQuote tag, ⟨hs, hl, .inr ⟨hb, tag, rfl, ⟨htag, hp⟩, hc⟩⟩, rfl⟩
  · rintro ⟨why, ⟨hs, hl, ⟨rfl, hb, hc⟩ | ⟨hb, tag, rfl, ⟨htag, hp⟩, hc⟩⟩, he⟩
    · cases he
      exact .comment hs hl hb hc
    · cases he
      exact .dollarQuote hs hl hb htag hp hc

end Token

namespace Cursor

theorem nextToken_eq_error_iff {c : Cursor} {e : Failure} :
    c.nextToken.1 = .error e ↔
      ∃ why, Token.classify c.settings c.remaining = .error why ∧
        e = .unclosed c.settings (.after c.consumed.text) why := by
  unfold nextToken
  cases Token.classify c.settings c.remaining <;> simp [eq_comm]

/-- The tokens that a cursor reads are the first ones of the stream ahead of it, which goes on
behind them. -/
theorem Reads.stream {c d : Cursor} {ts : List Token} (h : Reads c ts d) :
    TokenStream.read c.settings c.offset c.remaining =
      ⟨ts ++ (TokenStream.read d.settings d.offset d.remaining).tokens,
        (TokenStream.read d.settings d.offset d.remaining).unclosed⟩ := by
  induction h with
  | nothing c => rfl
  | @token c d e t ts hn he _ ih =>
    have hne := remaining_ne_nil hn he
    unfold nextToken at hn
    split at hn
    · cases hn
    · rename_i kind n hc
      cases hn
      rw [TokenStream.read_of_ok c.offset hne hc]
      exact congrArg (fun later : TokenStream =>
        (⟨⟨kind, c.remaining.take n, c.offset⟩ :: later.tokens, later.unclosed⟩ : TokenStream)) ih

/-- Where nothing more can be read, the stream behind the tokens read so far is empty, and its
failure is the one that the cursor meets. -/
theorem Reads.failure? {c d : Cursor} {ts : List Token} (h : Reads c ts d)
    (hd : (TokenStream.read d.settings d.offset d.remaining).tokens = []) :
    (TokenStream.read c.settings c.offset c.remaining).failure? c.settings c.consumed.text =
      (TokenStream.read d.settings d.offset d.remaining).unclosed.map
        (Failure.unclosed d.settings (.after d.consumed.text)) := by
  obtain ⟨-, hconsumed, hsettings⟩ := h.shape
  rw [h.stream, hd, List.append_nil, hconsumed, hsettings]
  rfl

/-- The stream ahead of a cursor ends at an opener that stays open exactly if reading on from the
cursor gets there. -/
theorem failure?_eq_some_iff {c : Cursor} {e : Failure} :
    (TokenStream.read c.settings c.offset c.remaining).failure? c.settings c.consumed.text =
        some e ↔
      ∃ ts d, c.Reads ts d ∧ d.nextToken.1 = .error e := by
  have hempty {d : Cursor} {why : Lexeme.Unclosed}
      (hd : Token.classify d.settings d.remaining = .error why) :
      TokenStream.read d.settings d.offset d.remaining = ⟨[], some why⟩ :=
    TokenStream.read_of_error _ hd
  constructor
  · intro h
    obtain ⟨ts, d, hreads, hend | ⟨e', he'⟩⟩ := Reads.exists_last c
    · obtain ⟨hr, -⟩ := eof_shape hend rfl
      rw [hreads.failure? (by rw [hr, TokenStream.read_nil]), hr, TokenStream.read_nil] at h
      cases h
    · obtain ⟨why, hd, rfl⟩ := nextToken_eq_error_iff.mp (congrArg Prod.fst he')
      rw [hreads.failure? (by rw [hempty hd]), hempty hd] at h
      cases h
      exact ⟨ts, d, hreads, congrArg Prod.fst he'⟩
  · rintro ⟨ts, d, hreads, he⟩
    obtain ⟨why, hd, rfl⟩ := nextToken_eq_error_iff.mp he
    rw [hreads.failure? (by rw [hempty hd]), hempty hd]
    rfl

/-- What a cursor has consumed and what remains make up the script. -/
theorem Reads.script_eq {settings : Settings} {script : Text} {ts : List Token} {c : Cursor}
    (h : (start settings script).Reads ts c) : script = c.consumed.text ++ c.remaining := by
  obtain ⟨hr, hc, -⟩ := h.shape
  rw [hc]
  exact hr

/-- A cursor stands between two characters of the script. -/
theorem Reads.place {settings : Settings} {script : Text} {ts : List Token} {c : Cursor}
    (h : (start settings script).Reads ts c) :
    c.offset ≤ script.byteSize ∧
      Position.at? script c.offset = some (.after c.consumed.text) := by
  rw [h.script_eq, c.offset_eq, Position.at?, Text.takeBytes?_append, Text.byteSize_append]
  exact ⟨Nat.le_add_right _ _, rfl⟩

end Cursor

/-- A scan under valid settings fails exactly at the first opener that stays open, when the
tokens before it have been read and neither the separator nor a line comment begins there. The
failure names the script, the end that the comment lacks or the whole tag of the dollar quote,
and the place of the opener, which is the place of no other offset. -/
theorem scan_fails_at_opener {settings : Settings} {script : Text} {e : Failure}
    (hs : settings.validate = .ok ()) :
    scan settings script = .error e ↔
      ∃ ts c place cause, (Cursor.start settings script).Reads ts c ∧
        Position.at? script c.offset = some place ∧
        (∀ offset ≤ script.byteSize, Position.at? script offset = some place →
          offset = c.offset) ∧
        Token.NeverClosed settings c.remaining place cause ∧
        e = .parse settings.resource cause := by
  have hfailure : (TokenStream.read settings 0 script).failure? settings [] = some e ↔ _ :=
    Cursor.failure?_eq_some_iff (c := .start settings script)
  rw [scan_eq_error_iff, hs, hfailure]
  simp only [reduceCtorEq, false_and, exists_false, false_or, true_and,
    Cursor.nextToken_eq_error_iff]
  constructor
  · rintro ⟨ts, c, hreads, why, hc, rfl⟩
    obtain ⟨hle, hat⟩ := hreads.place
    have hset : c.settings = settings := hreads.shape.2.2
    rw [hset] at hc ⊢
    obtain ⟨cause, hcause⟩ : ∃ cause, Failure.unclosed settings (.after c.consumed.text) why =
        .parse settings.resource cause := by
      cases why <;> exact ⟨_, rfl⟩
    refine ⟨ts, c, _, cause, hreads, hat, ?_, ?_, hcause⟩
    · intro offset ho hat'
      exact Position.eq_of_at?_eq ho hle hat' hat
    · exact (Token.neverClosed_iff hs).mpr ⟨why, hc, hcause⟩
  · rintro ⟨ts, c, place, cause, hreads, hat, -, hopen, rfl⟩
    have hset : c.settings = settings := hreads.shape.2.2
    obtain rfl : Position.after c.consumed.text = place :=
      Option.some.inj (hreads.place.2.symm.trans hat)
    obtain ⟨why, hc, he⟩ := (Token.neverClosed_iff hs).mp hopen
    refine ⟨ts, c, hreads, why, ?_, ?_⟩
    · rw [hset]
      exact hc
    · rw [hset]
      exact he.symm

/-- The end of a block comment does not share a character with its start. -/
theorem scan_fails_at_opener_behind_lines :
    scan .standard "é;\n /*/".toList =
      .error (.parse Settings.inlineResource (.unclosedComment ['*', '/'] ⟨2, 2⟩)) := by
  have hopen : Token.NeverClosed .standard ['/', '*', '/'] ⟨2, 2⟩
      (.unclosedComment ['*', '/'] ⟨2, 2⟩) :=
    .comment (by decide) (by decide) (by decide) (by decide)
  refine (scan_fails_at_opener rfl).mpr ⟨_, _, ⟨2, 2⟩, _, .token (t := ⟨.other, ['é'], 0⟩) rfl rfl
    (.token (t := ⟨.separator, [';'], 2⟩) rfl rfl
      (.token (t := ⟨.whitespace, ['\n', ' '], 3⟩) rfl rfl (.nothing _))), rfl, ?_, hopen, rfl⟩
  decide +kernel

end SqlStatements
