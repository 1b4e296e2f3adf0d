import Mathlib.Data.List.Induction
import SqlStatements.Proofs.Blocks
import SqlStatements.Proofs.Rereading
import SqlStatements.Proofs.Resuming

namespace SqlStatements

namespace Token
open Lexeme

/-- A character that could continue a word, as a token of its own. -/
def IsStray (t : Token) : Prop :=
  t.kind = .other ∧ ∃ c, t.text = [c] ∧ isWordPart c = true ∧ c.isAlpha = false

/-- No word goes on across the end of the token: its last character belongs to no word, or it is
the dollar sign that ends a dollar quote. -/
def EndsWords (t : Token) : Prop :=
  (∃ c ∈ t.text.getLast?, isWordPart c = false) ∨
    t.kind = .quotedString ∧ t.text.head? = some '$' ∧ t.text.getLast? = some '$'

theorem isWordPart_eq_false_of_mem_quotes {c : Char} (h : c ∈ quotes) : isWordPart c = false := by
  simp only [quotes, List.mem_cons, List.not_mem_nil, or_false] at h
  rcases h with rfl | rfl | rfl <;> decide

/-- A name takes all the characters that continue it. -/
theorem Leads.head_of_identifier {s : Settings} {t : Token} {w : Text} (h : Leads s t w)
    (hk : t.kind = .identifier) :
    (∃ c ∈ t.text.head?, c.isAlpha = true) ∧ ∀ c ∈ w.head?, isWordPart c = false := by
  obtain ⟨kind, x, start⟩ := t
  obtain ⟨hne, hc⟩ := h
  dsimp only at hk hc ⊢
  subst hk
  cases hc with
  | identifier _ hi =>
    obtain ⟨c, cs, rfl, hc, -, hw⟩ := identifier?_append_iff.mp hi
    exact ⟨⟨c, rfl, hc⟩, hw⟩

/-- Before a character that continues a word stands the end of a token that no word crosses, or a
character that has been left alone because no name begins with it. -/
theorem Leads.endsWords_or_isStray {t : Token} {w : Text} {c : Char}
    (h : Leads .standard t w) (hw : c ∈ w.head?) (hc : isWordPart c = true) :
    t.EndsWords ∨ t.IsStray := by
  obtain ⟨kind, x, start⟩ := t
  have heof := h.isEof
  have hname := h.head_of_identifier
  obtain ⟨hne, hcl⟩ := h
  dsimp only at hne hcl hname
  have hends {d : Char} (hd : x.getLast? = some d) (hd' : isWordPart d = false) :
      EndsWords ⟨kind, x, start⟩ ∨ IsStray ⟨kind, x, start⟩ := .inl (.inl ⟨d, hd, hd'⟩)
  cases kind with
  | separator =>
    cases hcl with
    | separator hs =>
      obtain rfl : x = [';'] := (literal?_append_iff.mp hs).2
      exact hends rfl (by decide)
  | comment =>
    cases hcl with
    | line _ hline =>
      obtain ⟨-, line, rfl, hlen⟩ := lineComment?_append_iff.mp hline
      obtain ⟨body, breaks, rfl, -, hk, hn, -⟩ := lineLength_append_iff.mp hlen
      -- more text follows, so the comment ends with its line breaks
      have hbreaks : breaks ≠ [] := by
        intro he
        rw [hn he] at hw
        cases hw
      refine hends (d := breaks.getLast hbreaks) ?_ ?_
      · rw [← List.append_assoc, List.getLast?_append_of_ne_nil _ hbreaks,
          List.getLast?_eq_some_getLast hbreaks]
      · exact isWordPart_eq_false_of_isAsciiBlank
          (isAsciiBlank_of_isLineBreak (hk _ (List.getLast_mem hbreaks)))
    | block _ _ hblock =>
      obtain ⟨-, body, n, rfl, hn, hl⟩ := blockComment?_append_iff.mp hblock
      exact hends (Leads.block_ends hn hl rfl) (by decide)
  | quotedString =>
    cases hcl with
    | quote _ hq =>
      obtain ⟨q, hm, b, rfl, hb, -⟩ := quotedString?_append_iff.mp hq
      refine hends (d := q) ?_ (isWordPart_eq_false_of_mem_quotes hm)
      simp [List.getLast?_cons, getLast?_of_closingQuote? hb]
    | dollar _ _ hd =>
      obtain ⟨tag, body, n, ⟨word, -, rfl⟩, rfl, hn, hl⟩ := dollarQuote?_append_iff.mp hd
      obtain ⟨front, rfl⟩ := suffix_of_indexOf? hn hl
      exact .inl (.inr ⟨rfl, by simp, by simp [List.getLast?_append, List.getLast?_cons]⟩)
  | identifier =>
    rw [(hname rfl).2 c hw] at hc
    cases hc
  | whitespace =>
    cases hcl with
    | blanks _ _ hb =>
      obtain ⟨-, hall, -⟩ := blanks?_append_iff.mp hb
      exact hends (List.getLast?_eq_some_getLast hne)
        (isWordPart_eq_false_of_isAsciiBlank (hall _ (List.getLast_mem hne)))
  | other =>
    cases hcl with
    | character _ hi _ hch =>
      obtain ⟨d, rfl⟩ := character?_append_iff.mp hch
      cases hd : isWordPart d with
      | false => exact hends rfl hd
      | true => exact .inr ⟨rfl, d, rfl, hd, identifier?_cons_eq_none_iff.mp hi⟩
  | eof => cases heof

theorem Front.exists_last {s : Settings} {ts : List Token} {t : Token} {w r : Text}
    (h : Front s w (ts ++ [t]) r) : Front s w ts (t.text ++ r) ∧ Leads s t r := by
  obtain ⟨v, hfirst, hlast⟩ := append_iff.mp h
  cases hlast with
  | token hlead hnothing =>
    cases hnothing
    exact ⟨hfirst, hlead⟩

/-- Going back from a character that continues a word one meets stray characters only, up to a
token that ends words. -/
theorem Front.exists_strays {ts : List Token} {w r : Text} {c : Char}
    (h : Front .standard w ts r) (hr : c ∈ r.head?) (hc : isWordPart c = true) :
    ∃ front strays, ts = front ++ strays ∧ (∀ u ∈ strays, u.IsStray) ∧
      ∀ u ∈ front.getLast?, u.EndsWords := by
  induction ts using List.reverseRec generalizing r c with
  | nil => exact ⟨[], [], rfl, by simp, by simp⟩
  | append_singleton ts t ih =>
    obtain ⟨hfront, hlead⟩ := h.exists_last
    rcases hlead.endsWords_or_isStray hr hc with hends | hstray
    · refine ⟨ts ++ [t], [], by simp, by simp, ?_⟩
      simpa using hends
    · obtain ⟨-, d, hd, hdw, -⟩ := id hstray
      obtain ⟨front, strays, rfl, hall, hlast⟩ := ih hfront (by simp [hd]) hdw
      refine ⟨front, strays ++ [t], by simp, ?_, hlast⟩
      intro u hu
      rcases List.mem_append.mp hu with hu | hu
      · exact hall u hu
      · rw [List.mem_singleton.mp hu]
        exact hstray

end Token

namespace Assembly

def Mode.depth : Mode → Nat
  | .standard => 0
  | .block _ below => below.length + 1
  | .closing _ below _ => below.length + 1
  | .finished => 0

def Opens (a : Assembly) (t : Token) : Prop := a.mode.depth < (a.read t).mode.depth

/-- From the token on it is open whether the innermost block goes on. -/
def MayClose (a : Assembly) (t : Token) : Prop :=
  ∃ top below, a.mode = .block top below ∧ (a.read t).mode = .closing top below []

theorem depth_close_le (a : Assembly) (below : List Frame) :
    (a.close below).mode.depth ≤ below.length := by
  rw [mode_close]
  cases below <;> simp [Mode.depth]

/-- Only `BEGIN` opens a block. -/
theorem Opens.isBegin {a : Assembly} {t : Token} (h : a.Opens t) : t.isBegin = true := by
  unfold Opens at h
  cases hm : a.mode with
  | standard =>
    by_cases hb : t.isBegin = true
    · exact hb
    rw [read_standard hm, readStandard, hm] at h
    cases hk : t.kind <;> simp [hk, hb, hm, Mode.depth] at h
  | block top below =>
    rw [read_block hm, readBlock, hm] at h
    by_cases he : t.isEof = true
    · simp [he, Mode.depth] at h
    by_cases hb : t.isBegin = true
    · exact hb
    by_cases hend : t.isEnd = true <;> simp [he, hb, hend, hm, Mode.depth] at h
  | closing top below held =>
    exfalso
    rw [hm] at h
    cases he : t.isEof with
    | true =>
      have hr : a.read t = a.close below := by simp [read_closing hm, readClosing, he]
      have := a.depth_close_le below
      rw [hr, Mode.depth] at h
      omega
    | false =>
      rcases read_closing_cases hm he with ⟨-, hr⟩ | ⟨-, -, -, hr⟩ | ⟨-, -, -, hr⟩ | ⟨-, -, hr⟩
      · simp [hr, Mode.depth] at h
      · have := (a.push (tail t)).depth_close_le below
        rw [hr, Mode.depth] at h
        omega
      · have := (a.push (held ++ t.text)).depth_close_le below
        rw [hr, Mode.depth] at h
        omega
      · simp [hr, Mode.depth] at h
  | finished =>
    rw [read_finished hm] at h
    exact absurd h (Nat.lt_irrefl _)

/-- Only `END` may close a block. -/
theorem MayClose.isEnd {a : Assembly} {t : Token} (h : a.MayClose t) : t.isEnd = true := by
  obtain ⟨top, below, hm, hr⟩ := h
  have he : t.isEof = false := by
    cases he : t.isEof with
    | false => rfl
    | true =>
      rw [read_block hm, readBlock, he] at hr
      cases hr
  rcases closing_of_read (by rw [hm]; rfl) he hr with ⟨hend, -⟩ | ⟨-, before, hb, -⟩
  · exact hend
  · rw [hm] at hb
    cases hb

end Assembly

open Assembly Lexeme

/-- No word goes on behind a token that opens a block or may close one. Before it stand characters
that have been left alone because no name begins with them: digits, underscores and dollar signs.
Before those the script begins, or stands a character that belongs to no word or the end of a
dollar quote, so that a name which begins with a letter is no keyword unless all of it is. -/
theorem keywords_end_names {script : Text} {before after : List Token} {t : Token}
    (hts : (TokenStream.read .standard 0 script).tokens = before ++ t :: after)
    (hact : (empty.readAll before).Opens t ∨ (empty.readAll before).MayClose t) :
    ∃ rest, script = before.flatMap Token.text ++ t.text ++ rest ∧
      t.start = Text.byteSize (before.flatMap Token.text) ∧
      (∀ c ∈ rest.head?, isWordPart c = false) ∧
      ∃ front strays, before = front ++ strays ∧ (∀ u ∈ strays, u.IsStray) ∧
        ∀ u ∈ front.getLast?, u.EndsWords := by
  have hall : (TokenStream.read .standard 0 script).tokens = before ++ [t] ++ after := by
    simpa using hts
  obtain ⟨rest, hread, -, -⟩ := Token.Front.of_read hall
  obtain ⟨hbefore, hlead⟩ := hread.exists_last
  have hkind : t.kind = .identifier := by
    rcases hact with hopen | hclose
    · exact Token.kind_of_isKeyword hopen.isBegin
    · exact Token.kind_of_isKeyword hclose.isEnd
  obtain ⟨⟨c, hc, halpha⟩, hrest⟩ := hlead.head_of_identifier hkind
  have hstart : c ∈ (t.text ++ rest).head? := by
    rw [List.head?_append_of_ne_nil _ hlead.1]
    exact hc
  refine ⟨rest, ?_, ?_, hrest, hbefore.exists_strays hstart (isWordPart_of_isAlpha halpha)⟩
  · rw [List.append_assoc]
    exact hbefore.spells
  · rw [TokenStream.start_of_read hts, Nat.zero_add]

/-- An `END` behind two stray characters, in a block with a name that ends with the keyword. -/
theorem keywords_end_names_behind_strays :
    let script := "BEGIN x$end; _1END;".toList
    let tokens := (TokenStream.read .standard 0 script).tokens
    let keyword : Token := ⟨.identifier, "END".toList, 15⟩
    tokens = tokens.take 7 ++ keyword :: tokens.drop 8 ∧
      (empty.readAll (tokens.take 7)).MayClose keyword ∧
      ∃ rest, script = (tokens.take 7).flatMap Token.text ++ keyword.text ++ rest ∧
        keyword.start = Text.byteSize ((tokens.take 7).flatMap Token.text) ∧
        (∀ c ∈ rest.head?, isWordPart c = false) ∧
        ∃ front strays, tokens.take 7 = front ++ strays ∧ (∀ u ∈ strays, u.IsStray) ∧
          ∀ u ∈ front.getLast?, u.EndsWords := by
  intro script tokens keyword
  have hts : tokens = tokens.take 7 ++ keyword :: tokens.drop 8 := by decide +kernel
  have hclose : (empty.readAll (tokens.take 7)).MayClose keyword :=
    ⟨⟨true⟩, [], by decide +kernel, by decide +kernel⟩
  exact ⟨hts, hclose, keywords_end_names hts (.inr hclose)⟩

/-- An underscore does not keep the rest of a name from opening a block. -/
theorem not_all_keywords_are_whole_words :
    ¬ ∀ (script rest : Text) (before after : List Token) (t : Token),
      (TokenStream.read .standard 0 script).tokens = before ++ t :: after →
      (empty.readAll before).Opens t ∨ (empty.readAll before).MayClose t →
      script = before.flatMap Token.text ++ t.text ++ rest →
        (∀ c ∈ (before.flatMap Token.text).getLast?, isWordPart c = false) ∧
          ∀ c ∈ rest.head?, isWordPart c = false := by
  intro h
  have hopen : (empty.readAll [⟨.other, ['_'], 0⟩]).Opens ⟨.identifier, "begin".toList, 1⟩ := by
    unfold Opens
    decide +kernel
  have hleft := (h "_begin".toList [] [⟨.other, ['_'], 0⟩] [] ⟨.identifier, "begin".toList, 1⟩
    (by decide +kernel) (.inl hopen) rfl).1 '_' rfl
  cases hleft

end SqlStatements
