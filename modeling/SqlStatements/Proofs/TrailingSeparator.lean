import SqlStatements.Proofs.Recursion
import SqlStatements.Proofs.Resplitting
import SqlStatements.Proofs.Tracing

namespace SqlStatements

namespace Lexeme
variable {w : Text} {c : Char}

/-- A character that a word does not contain cannot complete it. -/
theorem literal?_concat_eq_none {literal : Text} (h : literal? literal w = none)
    (hc : c ∉ literal) : literal? literal (w ++ [c]) = none := by
  cases hl : literal? literal (w ++ [c]) with
  | none => rfl
  | some n =>
    obtain ⟨hne, hp, -⟩ := literal?_eq_some_iff.mp hl
    rcases List.prefix_concat_iff.mp hp with rfl | hp
    · exact absurd (by simp) hc
    · rw [literal?_eq_some_iff.mpr ⟨hne, hp, rfl⟩] at h
      cases h

/-- Only the first character decides whether a text begins with a sign. -/
theorem literal?_sign_append_eq_none {v : Text} (h : literal? [c] w = none) (hw : w ≠ []) :
    literal? [c] (w ++ v) = none := by
  obtain ⟨d, w, rfl⟩ := List.exists_cons_of_ne_nil hw
  apply literal?_eq_none_of_head
  rintro he
  obtain rfl : c = d := Option.some.inj he
  have hsign : literal? [c] (c :: w) = some 1 :=
    literal?_eq_some_iff.mpr ⟨by simp, ⟨w, rfl⟩, rfl⟩
  rw [hsign] at h
  cases h

theorem dollarTag?_concat_eq_none (h : dollarTag? w = none) (hc : isWordPart c = false) :
    dollarTag? (w ++ [c]) = none := by
  cases hl : dollarTag? (w ++ [c]) with
  | none => rfl
  | some tag =>
    obtain ⟨htag, hp⟩ := dollarTag?_eq_some_iff.mp hl
    rcases List.prefix_concat_iff.mp hp with rfl | hp
    · rw [htag.isWordPart c (by simp)] at hc
      cases hc
    · rw [dollarTag?_eq_some_iff.mpr ⟨htag, hp⟩] at h
      cases h

/-- An open literal stays open behind a character that is neither its quote nor the escape. -/
theorem StaysOpen.concat {q : Char} {state : Wait} (h : StaysOpen q state w) (hq : c ≠ q)
    (hc : c ≠ '\\') : StaysOpen q state (w ++ [c]) := by
  induction w generalizing state with
  | nil =>
    cases state with
    | nothing => simp [StaysOpen, hq, hc]
    | escaped => trivial
    | doubled => exact h.elim
  | cons d w ih =>
    cases state with
    | nothing =>
      rw [StaysOpen] at h
      rw [List.cons_append, StaysOpen]
      by_cases hd : d = '\\'
      · rw [if_pos hd] at h ⊢
        exact ih h
      by_cases hdq : d = q
      · rw [if_neg hd, if_pos hdq] at h ⊢
        exact ih h
      · rw [if_neg hd, if_neg hdq] at h ⊢
        exact ih h
    | escaped => exact ih h
    | doubled => exact ⟨h.1, ih h.2⟩

theorem quotedString?_concat_eq_none (h : quotedString? w = none) (hq : c ∉ quotes)
    (hc : c ≠ '\\') : quotedString? (w ++ [c]) = none := by
  cases w with
  | nil => rw [List.nil_append, quotedString?_cons, if_neg hq]
  | cons d w =>
    rw [quotedString?_cons] at h
    rw [List.cons_append, quotedString?_cons]
    split
    · rename_i hd
      rw [if_pos hd, Option.map_eq_none_iff, closingQuote?_eq_none_iff] at h
      rw [Option.map_eq_none_iff, closingQuote?_eq_none_iff]
      exact h.concat (fun he => hq (he ▸ hd)) hc
    · rfl

end Lexeme

namespace Token
open Lexeme

section Standard
variable {w : Text}

theorem separator_concat (h : literal? Settings.standard.separator w = none) (hw : w ≠ []) :
    literal? Settings.standard.separator (w ++ [';']) = none :=
  literal?_sign_append_eq_none h hw

theorem lineComment_concat (h : lineComment? Settings.standard.lineComment w = none) :
    lineComment? Settings.standard.lineComment (w ++ [';']) = none := by
  have hopen : literal? Settings.standard.lineComment w = none := by simpa [lineComment?] using h
  simpa [lineComment?] using literal?_concat_eq_none hopen (by decide)

theorem Undelimited.concat (h : Undelimited .standard w) (hw : w ≠ []) :
    Undelimited .standard (w ++ [';']) := by
  refine ⟨separator_concat h.separator hw, lineComment_concat h.line, ?_⟩
  rw [blockComment?_eq_none_iff]
  exact literal?_concat_eq_none (blockComment?_eq_none_iff.mp h.block) (by decide)

theorem Unquoted.concat (h : Unquoted .standard w) (hw : w ≠ []) :
    Unquoted .standard (w ++ [';']) := by
  have hquote : ';' ∉ quotes := by decide
  refine ⟨h.toUndelimited.concat hw, quotedString?_concat_eq_none h.quote hquote (by decide), ?_⟩
  rw [dollarQuote?_eq_none_iff]
  exact dollarTag?_concat_eq_none (dollarQuote?_eq_none_iff.mp h.dollar) (by decide)

/-- A semicolon carries no token on. -/
theorem head_concat {p : Char → Bool} (hp : p ';' = false) (hw : ∀ c ∈ w.head?, p c = false) :
    ∀ c ∈ (w ++ [';']).head?, p c = false := by
  cases w with
  | nil => simpa using hp
  | cons d w => exact hw

/-- A semicolon at the end of a text belongs to a line comment at its front only if that goes on
up to the end of the text. -/
theorem lineLength_concat {line : Text} (h : lineLength (line ++ w) = line.length) :
    lineLength (line ++ (w ++ [';'])) = line.length ∨
      w = [] ∧ lineLength (line ++ [';']) = (line ++ [';']).length := by
  obtain ⟨body, breaks, rfl, hbody, hbreaks, hend, hnext⟩ := lineLength_append_iff.mp h
  by_cases hnone : breaks = []
  · right
    subst hnone
    refine ⟨hend rfl, ?_⟩
    have hline : ∀ c ∈ body ++ [';'], isLineBreak c = false := by
      intro c hc
      rcases List.mem_append.mp hc with hc | hc
      · exact hbody c hc
      · rw [List.mem_singleton.mp hc]
        rfl
    have hall := (lineLength_append_iff (x := body ++ [';']) (w := [])).mpr
      ⟨body ++ [';'], [], by simp, hline, by simp, by simp, by simp⟩
    simpa using hall
  · left
    exact lineLength_append_iff.mpr
      ⟨body, breaks, rfl, hbody, hbreaks, fun he => absurd he hnone, head_concat rfl hnext⟩

end Standard

/-- A semicolon at the end of a text leaves the token at its front as it is. Only a line comment
up to the end of the text takes it in. -/
theorem Leads.concat {t : Token} {w : Text} (h : Leads .standard t w) :
    Leads .standard t (w ++ [';']) ∨
      w = [] ∧ t.kind = .comment ∧ Leads .standard { t with text := t.text ++ [';'] } [] := by
  have hend := h.isEof
  obtain ⟨kind, x, start⟩ := t
  obtain ⟨hne, hc⟩ := h
  dsimp only at hne hc
  have hwhole : x ++ w ≠ [] := by simp [hne]
  have hassoc : x ++ w ++ [';'] = x ++ (w ++ [';']) := List.append_assoc _ _ _
  cases kind with
  | eof => cases hend
  | separator =>
    cases hc with
    | separator hs =>
      exact .inl ⟨hne, .separator (literal?_append_iff.mpr (literal?_append_iff.mp hs))⟩
  | comment =>
    cases hc with
    | line hs hl =>
      obtain ⟨hopen, line, rfl, hlen⟩ := lineComment?_append_iff.mp hl
      have hsep := separator_concat hs hwhole
      rcases lineLength_concat hlen with hlen | ⟨rfl, hlen⟩
      · refine .inl ⟨hne, .line (hassoc ▸ hsep) ?_⟩
        exact lineComment?_append_iff.mpr ⟨hopen, line, rfl, hlen⟩
      · refine .inr ⟨rfl, rfl, by simp, ?_⟩
        dsimp only
        rw [List.append_nil] at hsep
        refine .line (by rwa [List.append_nil]) (lineComment?_append_iff.mpr ?_)
        exact ⟨hopen, line ++ [';'], by simp, by rwa [List.append_nil]⟩
    | block hs hl hb =>
      left
      refine ⟨hne, .block (hassoc ▸ separator_concat hs hwhole) ?_ ?_⟩
      · exact hassoc ▸ lineComment_concat hl
      · exact blockComment?_append_iff.mpr (blockComment?_append_iff.mp hb)
  | quotedString =>
    left
    cases hc with
    | quote hd hq =>
      obtain ⟨q, hm, b, rfl, hb, hnext⟩ := quotedString?_append_iff.mp hq
      refine ⟨hne, .quote (hassoc ▸ hd.concat hwhole) ?_⟩
      refine quotedString?_append_iff.mpr ⟨q, hm, b, rfl, hb, ?_⟩
      cases w with
      | nil =>
        intro he
        obtain rfl : ';' = q := Option.some.inj he
        exact absurd hm (by decide)
      | cons d w => exact hnext
    | dollar hd hq ht =>
      refine ⟨hne, .dollar (hassoc ▸ hd.concat hwhole) ?_ ?_⟩
      · exact hassoc ▸ quotedString?_concat_eq_none hq (by decide) (by decide)
      · exact dollarQuote?_append_iff.mpr (dollarQuote?_append_iff.mp ht)
  | identifier =>
    left
    cases hc with
    | identifier hu hi =>
      obtain ⟨c, cs, rfl, hc, hcs, hnext⟩ := identifier?_append_iff.mp hi
      refine ⟨hne, .identifier (hassoc ▸ hu.concat hwhole) ?_⟩
      exact identifier?_append_iff.mpr ⟨c, cs, rfl, hc, hcs, head_concat rfl hnext⟩
  | whitespace =>
    left
    cases hc with
    | blanks hu hi hb =>
      obtain ⟨-, hall, hnext⟩ := blanks?_append_iff.mp hb
      obtain ⟨c, cs, rfl⟩ := List.exists_cons_of_ne_nil hne
      refine ⟨hne, .blanks (hassoc ▸ hu.concat hwhole) ?_ ?_⟩
      · exact identifier?_cons_eq_none_iff.mpr (identifier?_cons_eq_none_iff.mp hi)
      · exact blanks?_append_iff.mpr ⟨hne, hall, head_concat rfl hnext⟩
  | other =>
    left
    cases hc with
    | character hu hi hb hc =>
      obtain ⟨c, rfl⟩ := character?_append_iff.mp hc
      refine ⟨hne, .character (hassoc ▸ hu.concat hwhole) ?_ ?_ ?_⟩
      · exact identifier?_cons_eq_none_iff.mpr (identifier?_cons_eq_none_iff.mp hi)
      · exact blanks?_cons_eq_none_iff.mpr (blanks?_cons_eq_none_iff.mp hb)
      · exact character?_append_iff.mpr ⟨c, rfl⟩

/-- Behind a semicolon at the end of its text a chain has one token more, or a longer comment as
its last one. -/
theorem Chain.concat {ts : List Token} (h : Chain .standard ts) :
    Chain .standard (ts ++ [semicolon]) ∨
      ∃ us c, ts = us ++ [c] ∧ c.kind = .comment ∧
        Chain .standard (us ++ [{ c with text := c.text ++ [';'] }]) := by
  induction ts with
  | nil => exact .inl ⟨leads_semicolon [], trivial⟩
  | cons t ts ih =>
    obtain ⟨hlead, hts⟩ := h
    rcases ih hts with hchain | ⟨us, c, rfl, hc, hchain⟩
    · rcases hlead.concat with hlead | ⟨hnil, hk, hlonger⟩
      · exact .inl ⟨by simpa [semicolon] using hlead, hchain⟩
      · cases ts with
        | nil => exact .inr ⟨[], t, rfl, hk, hlonger, trivial⟩
        | cons u ts => exact absurd (List.append_eq_nil_iff.mp hnil).1 hts.1.1
    · rcases hlead.concat with hlead | ⟨hnil, -⟩
      · exact .inr ⟨t :: us, c, rfl, hc, by simpa using hlead, hchain⟩
      · have hne : c.text ≠ [] := hts.leads.1
        simp [hne] at hnil

end Token

namespace Assembly
open Token

/-- Comments open and close nothing. -/
theorem leftOpen_read_comment (a : Assembly) {t : Token} (ht : t.kind = .comment) :
    (a.read t).mode.leftOpen = a.mode.leftOpen := by
  cases hm : a.mode with
  | standard => rw [read_standard hm, readStandard, ht, hm]
  | block top below =>
    rw [read_block hm, readBlock]
    simp [isEof, isBegin, isEnd, isKeyword, ht, hm]
  | closing top below held =>
    rw [read_closing hm, readClosing]
    simp [isEof, isTrivia, ht, Mode.leftOpen]
  | finished => rw [read_finished hm, hm]

variable {a : Assembly} (h : a.mode.leftOpen = 0)
include h

/-- Where the end of the input leaves no block open, a comment before it does not count. -/
theorem conclude_read_comment {t : Token} (ht : t.kind = .comment) :
    (a.read t).conclude.statements = a.conclude.statements := by
  cases hm : a.mode with
  | standard => rw [read_standard hm, readStandard, ht]
  | block top below =>
    rw [hm] at h
    cases h
  | closing top below held =>
    have hr : a.read t = a.goTo (.closing top below (held ++ t.text)) := by
      rw [read_closing hm, readClosing]
      simp [isEof, isTrivia, ht]
    rw [hr, conclude_inside rfl, conclude_inside (by rw [hm]; rfl)]
    rfl
  | finished => rw [read_finished hm]

/-- Where the end of the input leaves no block open, a separator before it does not count. -/
theorem conclude_read_separator {t : Token} (hn : a.mode.Nested) (ht : t.kind = .separator) :
    (a.read t).conclude.statements = a.conclude.statements := by
  cases hm : a.mode with
  | standard =>
    obtain ⟨hfresh, hstatements⟩ := read_separator hm ht
    obtain ⟨hmode, -, hbuffer⟩ := fresh_iff.mp hfresh
    rw [conclude_standard hmode, hstatements, hbuffer, conclude_standard hm]
    simp
  | block top below =>
    rw [hm] at h
    cases h
  | closing top below held =>
    rw [hm] at h hn
    obtain rfl : below = [] := List.length_eq_zero_iff.mp h
    obtain rfl : top = ⟨true⟩ := congrArg Frame.mk hn
    rw [read_closer hm (by simp [isEof, ht]) (by simp [isTrivia, ht]) (by simp [isCloser, ht]),
      tail_of_separator ht, push_nil, ← conclude_eq_of_closing hm]
  | finished => rw [read_finished hm]

end Assembly

open Assembly Token

/-- Without a warning no block is open at the end of the script. -/
theorem leftOpen_eq_zero {settings : Settings} {script : Text} {out : List Text}
    (hv : settings.validate = .ok ()) (hout : (splitUnchecked settings script).result = .ok out)
    (hclosed : ∀ n, .blocksLeftOpen n ∉ (split settings script).events) :
    (empty.readAll (TokenStream.read settings 0 script).tokens).mode.leftOpen = 0 := by
  obtain ⟨es, -, hevents⟩ := exists_trace hout rfl
  by_contra hne
  obtain ⟨d, hd⟩ := Nat.exists_eq_succ_of_ne_zero hne
  apply hclosed (d + 1)
  rw [split_of_valid hv, Logged.andThen, hout, hevents, hd]
  simp [Event.warning]

/-- A script that leaves no block open is split alike with a semicolon more at its end, whatever
it ends in. -/
theorem split_concat_separator {script : Text} {out : List Text}
    (hout : (split .standard script).result = .ok out)
    (hclosed : ∀ n, .blocksLeftOpen n ∉ (split .standard script).events) :
    (split .standard (script ++ [';'])).result = .ok out := by
  have hunchecked := (result_split_standard script).symm.trans hout
  obtain ⟨hu, hstatements⟩ := splitUnchecked_ok_iff.mp hunchecked
  obtain ⟨hchain, htext⟩ := TokenStream.chain_read hu
  have hopen := leftOpen_eq_zero rfl hunchecked hclosed
  set ts := (TokenStream.read .standard 0 script).tokens
  have hstart : empty.mode.Nested := trivial
  have hspelled : ts.flatMap text = script := htext
  rcases hchain.concat with hchain | ⟨us, c, hus, hc, hchain⟩
  · have hsplit := split_of_chain hchain
    rw [readAll_append, readAll_cons, readAll_nil,
      conclude_read_separator hopen (nested_readAll hstart ts) rfl, hstatements] at hsplit
    rw [← hspelled]
    simpa [semicolon] using hsplit
  · have hsplit := split_of_chain hchain
    have hlonger : ({ c with text := c.text ++ [';'] } : Token).kind = .comment := hc
    rw [hus, readAll_append, readAll_cons, readAll_nil] at hopen hstatements
    rw [leftOpen_read_comment _ hc] at hopen
    rw [conclude_read_comment hopen hc] at hstatements
    rw [readAll_append, readAll_cons, readAll_nil, conclude_read_comment hopen hlonger,
      hstatements] at hsplit
    rw [← hspelled, hus]
    simpa using hsplit

/-- A quote that nothing closes, and a line comment up to the end of the input behind the `END` of
a block. -/
theorem split_concat_separator_behind_comment :
    let script := "'it; BEGIN y; END -- c".toList
    let out := ["'it".toList, "BEGIN y; END".toList]
    (split .standard script).result = .ok out ∧
      (split .standard (script ++ [';'])).result = .ok out := by
  intro script out
  have hout : (splitUnchecked .standard script).result = .ok out := by
    rw [splitUnchecked_ok_iff]
    decide +kernel
  have hevents : (splitUnchecked .standard script).events = [.blockEntered 10, .blockClosed 0] := by
    rw [splitUnchecked_eq]
    decide +kernel
  have hresult := (result_split_standard script).trans hout
  refine ⟨hresult, split_concat_separator hresult ?_⟩
  intro n
  rw [split_of_valid rfl, Logged.andThen, hout, hevents]
  simp

end SqlStatements
