import SqlStatements.Proofs.Cutting
import SqlStatements.Proofs.Resuming

namespace SqlStatements

namespace Assembly

def behind (earlier : List Text) (a : Assembly) : Assembly :=
  { a with statements := earlier ++ a.statements }

section Behind
variable (earlier : List Text) (a : Assembly)

theorem flush_behind : (a.behind earlier).flush = a.flush.behind earlier := by
  unfold flush behind
  dsimp only
  split
  · rfl
  · rw [List.append_assoc]

theorem fillGap_behind (t : Token) :
    (a.behind earlier).fillGap t = (a.fillGap t).behind earlier := by
  unfold fillGap behind
  dsimp only
  split <;> rfl

theorem close_behind (below : List Frame) :
    (a.behind earlier).close below = (a.close below).behind earlier := by
  cases below with
  | nil => exact congrArg (goTo · .standard) ((a.log (.blockClosed 0)).flush_behind earlier)
  | cons top below => rfl

/-- Statements that have been emitted do not matter for what a token does. -/
theorem read_behind (t : Token) : (a.behind earlier).read t = (a.read t).behind earlier := by
  have hmode : (a.behind earlier).mode = a.mode := rfl
  cases hm : a.mode with
  | standard =>
    rw [read_standard (hmode.trans hm), read_standard hm, readStandard, readStandard]
    cases t.kind with
    | eof => rw [flush_behind]; rfl
    | separator => rw [flush_behind]; rfl
    | comment => rfl
    | whitespace => rfl
    | identifier =>
      dsimp only
      rw [fillGap_behind]
      split <;> rfl
    | quotedString => rw [fillGap_behind]; rfl
    | other => rw [fillGap_behind]; rfl
  | block top below =>
    rw [read_block (hmode.trans hm), read_block hm, readBlock, readBlock]
    split
    · exact congrArg (goTo · .standard) ((a.log _).flush_behind earlier)
    split
    · rfl
    split <;> rfl
  | closing top below held =>
    rw [read_closing (hmode.trans hm), read_closing hm, readClosing, readClosing]
    split
    · exact a.close_behind earlier below
    split
    · rfl
    split
    · split
      · exact a.close_behind earlier below
      · exact (a.push (held ++ t.text)).close_behind earlier below
    split
    · split
      · exact (a.push t.text).close_behind earlier below
      · exact (a.push (held ++ t.text)).close_behind earlier below
    · rfl
  | finished => rw [read_finished (hmode.trans hm), read_finished hm]

theorem readAll_behind (ts : List Token) :
    (a.behind earlier).readAll ts = (a.readAll ts).behind earlier := by
  induction ts generalizing a with
  | nil => rfl
  | cons t ts ih => rw [readAll_cons, readAll_cons, read_behind, ih]

theorem conclude_behind : (a.behind earlier).conclude = a.conclude.behind earlier := by
  unfold conclude
  rw [read_behind, read_behind, read_behind]

end Behind

theorem Fresh.alike {a : Assembly} (h : a.Fresh) : a.Alike (empty.behind a.statements) := by
  obtain ⟨hm, hg, hb⟩ := fresh_iff.mp h
  exact ⟨hm, hg, Buffer.ext_text hb, (List.append_nil _).symm⟩

/-- Between two statements an assembly goes on as from the beginning. -/
theorem Fresh.conclude {a : Assembly} {ts us : List Token} (h : a.Fresh)
    (ht : ts.map Token.content = us.map Token.content) :
    (a.readAll ts).conclude.statements =
      a.statements ++ (empty.readAll us).conclude.statements := by
  have halike := (h.alike.readAll ht).conclude.statements
  rw [readAll_behind, conclude_behind] at halike
  exact halike

/-- Within blocks no blanks wait to be written. -/
def Settled (a : Assembly) : Prop := a.mode.isInside = true → a.gap = .none

theorem Settled.read {a : Assembly} (h : a.Settled) (t : Token) : (a.read t).Settled := by
  intro hi
  cases hm : a.mode with
  | standard =>
    rw [read_standard hm, readStandard] at hi ⊢
    cases hk : t.kind with
    | eof => rw [hk] at hi; cases hi
    | separator => rfl
    | comment =>
      rw [hk] at hi
      dsimp only at hi
      rw [hm] at hi
      cases hi
    | whitespace =>
      rw [hk] at hi
      dsimp only at hi
      rw [hm] at hi
      cases hi
    | identifier =>
      dsimp only
      split <;> simp
    | quotedString => simp
    | other => simp
  | block top below =>
    have hgap : a.gap = .none := h (by rw [hm]; rfl)
    rw [read_block hm, readBlock]
    repeat' split
    all_goals exact hgap
  | closing top below held =>
    have hgap : a.gap = .none := h (by rw [hm]; rfl)
    rw [read_closing hm, readClosing]
    cases below <;> repeat' split
    all_goals exact hgap
  | finished =>
    rw [read_finished hm, hm] at hi
    cases hi

theorem settled_readAll {a : Assembly} (h : a.Settled) (ts : List Token) :
    (a.readAll ts).Settled :=
  readAll_of_read (fun _ t hs => hs.read t) h ts

/-- A separator outside of blocks, or behind the `END` of the outermost one, leaves nothing
behind but statements. -/
theorem fresh_read_separator {a : Assembly} {t : Token} (hs : a.Settled)
    (hm : a.mode = .standard ∨ ∃ held, a.mode = .closing ⟨true⟩ [] held)
    (ht : t.kind = .separator) : (a.read t).Fresh := by
  rcases hm with hm | ⟨held, hm⟩
  · exact (read_separator hm ht).1
  · rw [read_closer hm (by simp [Token.isEof, ht]) (by simp [Token.isTrivia, ht])
      (by simp [isCloser, ht])]
    exact fresh_iff.mpr ⟨rfl, hs (by rw [hm]; rfl), rfl⟩

end Assembly

open Assembly

/-- Splitting fails exactly when some opener is not closed. -/
theorem splitUnchecked_error_iff {settings : Settings} {script : Text} :
    (∃ e, (splitUnchecked settings script).result = .error e) ↔
      (TokenStream.read settings 0 script).unclosed ≠ none := by
  rw [splitUnchecked_eq]
  cases hu : (TokenStream.read settings 0 script).unclosed <;>
    simp [TokenStream.failure?, hu]

namespace Token

/-- A separator that does not end with a quote cuts a script in two: the tokens up to it are
all that its front has, and those behind it are all that its rest has. -/
theorem Front.of_read_separator {s : Settings} {script front rest : Text}
    {before after : List Token} {t : Token}
    (hquote : ∀ c ∈ s.separator.getLast?, c ∉ Lexeme.quotes)
    (hts : (TokenStream.read s 0 script).tokens = before ++ t :: after)
    (ht : t.kind = .separator) (hscript : script = front ++ rest)
    (hcut : front.byteSize = t.stop) :
    Front s front (before ++ [t]) [] ∧
      after.map content = (TokenStream.read s 0 rest).tokens.map content ∧
      (TokenStream.read s 0 script).unclosed = (TokenStream.read s 0 rest).unclosed := by
  have hall : (TokenStream.read s 0 script).tokens = before ++ [t] ++ after := by simpa using hts
  obtain ⟨r, hfront, htokens, hunclosed⟩ := of_read hall
  have hsize : front.byteSize = Text.byteSize ((before ++ [t]).flatMap text) := by
    rw [hcut, stop, TokenStream.start_of_read hts]
    simp
  obtain ⟨rfl, rfl⟩ := Text.append_inj (hscript.symm.trans hfront.spells) hsize
  obtain ⟨v, hlead⟩ := hfront.leads_of_mem t (by simp)
  rw [← hlead.text_of_separator ht] at hquote
  obtain ⟨hcontent, hsame⟩ := TokenStream.content_read s rest
    (0 + Text.byteSize ((before ++ [t]).flatMap text)) 0
  exact ⟨hfront.cut ht hquote, htokens ▸ hcontent, hunclosed.symm.trans hsame⟩

end Token

/-- A separator that ends a statement cuts the script into two parts that can be split on
their own. A separator that ends with a quote is left out: the first quote of a doubled one
would close a literal once the text behind it is gone. -/
theorem split_at_separator {settings : Settings} {script front rest : Text}
    {before after : List Token} {t : Token}
    (hquote : ∀ c ∈ settings.separator.getLast?, c ∉ Lexeme.quotes)
    (hts : (TokenStream.read settings 0 script).tokens = before ++ t :: after)
    (ht : t.kind = .separator)
    (hm : (empty.readAll before).mode = .standard ∨
      ∃ held, (empty.readAll before).mode = .closing ⟨true⟩ [] held)
    (hscript : script = front ++ rest) (hcut : front.byteSize = t.stop) :
    ∃ xs, (splitUnchecked settings front).result = .ok xs ∧
      (∀ ys, (splitUnchecked settings script).result = .ok (xs ++ ys) ↔
        (splitUnchecked settings rest).result = .ok ys) ∧
      ((∃ e, (splitUnchecked settings script).result = .error e) ↔
        ∃ e, (splitUnchecked settings rest).result = .error e) := by
  obtain ⟨hfront, hafter, hunclosed⟩ := Token.Front.of_read_separator hquote hts ht hscript hcut
  have hsettled : (empty.readAll before).Settled := settled_readAll (fun _ => rfl) before
  have hfresh : (empty.readAll (before ++ [t])).Fresh := by
    rw [readAll_append]
    exact fresh_read_separator hsettled hm ht
  have hscriptStatements : (empty.readAll (before ++ t :: after)).conclude.statements =
      (empty.readAll (before ++ [t])).statements ++
        (empty.readAll (TokenStream.read settings 0 rest).tokens).conclude.statements := by
    rw [← hfresh.conclude hafter, readAll_append, readAll_append]
    rfl
  refine ⟨(empty.readAll (before ++ [t])).statements, ?_, ?_, ?_⟩
  · obtain ⟨hcontent, hclosed⟩ := hfront.content_read 0
    rw [TokenStream.read_nil] at hcontent hclosed
    rw [splitUnchecked_ok_iff]
    refine ⟨hclosed, ?_⟩
    have halike := (Alike.refl empty).readAll (hcontent.trans (List.append_nil _))
    rw [halike.conclude.statements]
    exact (@Fresh.conclude _ [] [] hfresh rfl).trans (List.append_nil _)
  · intro ys
    rw [splitUnchecked_ok_iff, splitUnchecked_ok_iff, hunclosed, hts, hscriptStatements,
      List.append_cancel_left_eq]
  · rw [splitUnchecked_error_iff, splitUnchecked_error_iff, hunclosed]

/-- A separator behind a nested block, after a quote that opens nothing in the whole script and
before a literal with a separator. -/
theorem split_at_separator_behind_block :
    let front := "a\"b BEGIN BEGIN x; END; y; END --k's\n;".toList
    let rest := " c 'd;e'".toList
    let tokens := (TokenStream.read .standard 0 (front ++ rest)).tokens
    let closer : Token := ⟨.separator, [';'], 37⟩
    let xs := ["a\"b BEGIN BEGIN x; END; y; END".toList]
    let ys := ["c 'd;e'".toList]
    (∀ c ∈ Settings.standard.separator.getLast?, c ∉ Lexeme.quotes) ∧
      tokens = tokens.take 20 ++ closer :: tokens.drop 21 ∧
      (empty.readAll (tokens.take 20)).mode = .closing ⟨true⟩ [] " --k's\n".toList ∧
      Text.byteSize front = closer.stop ∧
      (splitUnchecked .standard front).result = .ok xs ∧
      (splitUnchecked .standard rest).result = .ok ys ∧
      (splitUnchecked .standard (front ++ rest)).result = .ok (xs ++ ys) ∧
      ((∃ e, (splitUnchecked .standard (front ++ rest)).result = .error e) ↔
        ∃ e, (splitUnchecked .standard rest).result = .error e) := by
  intro front rest tokens closer xs ys
  have hquote : ∀ c ∈ Settings.standard.separator.getLast?, c ∉ Lexeme.quotes := by
    simp [Settings.standard, Lexeme.quotes]
  have hts : tokens = tokens.take 20 ++ closer :: tokens.drop 21 := by decide +kernel
  have hm : (empty.readAll (tokens.take 20)).mode = .closing ⟨true⟩ [] " --k's\n".toList := by
    decide +kernel
  have hcut : Text.byteSize front = closer.stop := by decide +kernel
  have hfront : (splitUnchecked .standard front).result = .ok xs := by
    rw [splitUnchecked_ok_iff]
    decide +kernel
  have hrest : (splitUnchecked .standard rest).result = .ok ys := by
    rw [splitUnchecked_ok_iff]
    decide +kernel
  obtain ⟨first, hfirst, hok, herror⟩ := split_at_separator hquote hts rfl (.inr ⟨_, hm⟩) rfl hcut
  obtain rfl : xs = first := Except.ok.inj (hfront.symm.trans hfirst)
  exact ⟨hquote, hts, hm, hcut, hfront, hrest, (hok ys).mpr hrest, herror⟩

end SqlStatements
