import SqlStatements.Proofs.Cutting
import SqlStatements.Proofs.Trimming

namespace SqlStatements

namespace Assembly

/-- The statement of a block that `b` opens in `a`: the text before the block, the block up
to its end as it stands in the script, and the semicolon when this is no separator. -/
def blockStatement (a : Assembly) (b : Token) (body closer : List Token) : Text :=
  ((a.fillGap b).buffer.text ++ (b.text ++ body.flatMap Token.text) ++ closer.flatMap tail).trim

/-- A block that `b` opens in `a` is kept as it stands in the script from `b` to the end of
`body`, and makes one of the statements `out`. All that is left out of it is the trivia after
its last `END` and the token that closes it. -/
structure KeepsBlock (script : Text) (a : Assembly) (b : Token)
    (body trivia closer rest : List Token) (later out : List Text) : Prop where
  span : (a.read b).BlockSpan body trivia closer rest
  slice : script.slice? b.start (b.stop + Text.byteSize (body.flatMap Token.text)) =
    some (b.text ++ body.flatMap Token.text)
  semicolon : ∀ u ∈ closer, u.kind = .separator ∧ tail u = [] ∨
    u.kind ≠ .separator ∧ u.text = [';'] ∧ tail u = [';']
  statement : blockStatement a b body closer ≠ []
  emitted : out = a.statements ++ blockStatement a b body closer :: later
  resumed : closer ≠ [] → (a.readAll (b :: (body ++ trivia ++ closer))).Fresh ∧
    (a.readAll (b :: (body ++ trivia ++ closer))).statements =
      a.statements ++ [blockStatement a b body closer]
  last : closer = [] → rest = [] ∧ later = []
  unclosed : ∀ top below, closer = [] →
    (a.readAll (b :: (body ++ trivia))).mode = .block top below →
      b.stop + Text.byteSize (body.flatMap Token.text) = script.byteSize

end Assembly

/-- Tokens that follow each other spell the part of the script from the first to the last. -/
theorem TokenStream.slice_of_read {s : Settings} {script : Text} {before body rest : List Token}
    {t : Token} (hu : (read s 0 script).unclosed = none)
    (hts : (read s 0 script).tokens = before ++ t :: (body ++ rest)) :
    script.slice? t.start (t.stop + Text.byteSize (body.flatMap Token.text)) =
      some (t.text ++ body.flatMap Token.text) := by
  have hstart : t.start = Text.byteSize (before.flatMap Token.text) := by
    rw [start_of_read hts, Nat.zero_add]
  have hshape : script = before.flatMap Token.text ++ (t.text ++ body.flatMap Token.text) ++
      rest.flatMap Token.text := by
    have htext := (chain_read hu).2
    rw [text, hts] at htext
    rw [← htext]
    simp
  have hcut := Text.slice?_append (before.flatMap Token.text) (t.text ++ body.flatMap Token.text)
    (rest.flatMap Token.text)
  rwa [← hshape, ← hstart, Text.byteSize_append, ← Nat.add_assoc] at hcut

/-- The tokens up to the last one end where the script ends. -/
theorem TokenStream.stop_of_read {s : Settings} {script : Text} {before body : List Token}
    {t : Token} (hu : (read s 0 script).unclosed = none)
    (hts : (read s 0 script).tokens = before ++ t :: body) :
    t.stop + Text.byteSize (body.flatMap Token.text) = script.byteSize := by
  have htext := (chain_read hu).2
  rw [text, hts] at htext
  rw [← htext, Token.stop, start_of_read hts]
  simp [Nat.add_assoc]

namespace Assembly

theorem blockStatement_ne_nil {s : Settings} {a : Assembly} {b : Token} {w : Text}
    (hc : Token.Leads s b w) (hb : b.isBegin = true) (body closer : List Token) :
    blockStatement a b body closer ≠ [] := by
  obtain ⟨c, cs, hcs⟩ := List.exists_cons_of_ne_nil hc.1
  have hblank := hc.nonblank_of_identifier (Token.kind_of_isKeyword hb) c (by simp [hcs])
  exact Text.trim_ne_nil (by simp [hcs]) hblank

/-- A closed block adds its statement, and leaves nothing behind. -/
theorem BlockSpan.resumed {s : Settings} {a : Assembly} {b u : Token}
    {body trivia rest : List Token} (h : (a.read b).BlockSpan body trivia [u] rest)
    (hm : a.mode = .standard) (hb : b.isBegin = true)
    (hc : Token.Chain s (b :: (body ++ trivia ++ [u] ++ rest))) :
    (a.readAll (b :: (body ++ trivia ++ [u]))).Fresh ∧
      (a.readAll (b :: (body ++ trivia ++ [u]))).statements =
        a.statements ++ [blockStatement a b body [u]] := by
  obtain ⟨hopen, hgap, hst, hbuf⟩ := read_begin_fields hm hb
  obtain ⟨hfresh, hkept⟩ := h.fresh_of_closer hopen hgap
    (fun t ht => hc.2.isEof t (List.mem_append_left rest ht)) (by simp)
  have hne := blockStatement_ne_nil (a := a) hc.1 hb body [u]
  refine ⟨hfresh, ?_⟩
  rw [readAll_cons, hkept, hst, hbuf, Text.kept_of_ne_nil]
  · simp [blockStatement]
  · simpa [blockStatement] using hne

/-- A block that is open at the end of the input adds its statement there. -/
theorem BlockSpan.ended {s : Settings} {a : Assembly} {b : Token} {body trivia rest : List Token}
    (h : (a.read b).BlockSpan body trivia [] rest) (hm : a.mode = .standard)
    (hb : b.isBegin = true) (hc : Token.Chain s (b :: (body ++ trivia))) :
    (a.readAll (b :: (body ++ trivia))).conclude.statements =
      a.statements ++ [blockStatement a b body []] := by
  obtain ⟨hopen, -, hst, hbuf⟩ := read_begin_fields hm hb
  obtain ⟨-, hlast⟩ := h.conclude_of_no_closer hopen
    (fun t ht => hc.2.isEof t (List.mem_append_left trivia ht))
  have hne := blockStatement_ne_nil (a := a) hc.1 hb body []
  rw [readAll_cons, hlast, hst, hbuf, Text.kept_of_ne_nil]
  · simp [blockStatement]
  · simpa [blockStatement] using hne

end Assembly

open Assembly

/-- A block is kept as it stands in the script, and nothing but the trivia behind its last
`END` and its closer are left out. -/
theorem split_keeps_blocks {settings : Settings} {script : Text} {out : List Text}
    {before after : List Token} {b : Token}
    (hout : (splitUnchecked settings script).result = .ok out)
    (hts : (TokenStream.read settings 0 script).tokens = before ++ b :: after)
    (hm : (Assembly.empty.readAll before).mode = .standard) (hb : b.isBegin = true) :
    ∃ body trivia closer rest later, after = body ++ trivia ++ closer ++ rest ∧
      KeepsBlock script (Assembly.empty.readAll before) b body trivia closer rest later out := by
  obtain ⟨hu, hall⟩ := splitUnchecked_ok_iff.mp hout
  have hchain := (TokenStream.chain_read hu).1
  rw [hts] at hchain
  have hc : Token.Chain settings (b :: after) := hchain.drop
  rw [hts, readAll_append] at hall
  obtain ⟨body, trivia, closer, rest, rfl, hspan⟩ :=
    exists_blockSpan (read_begin_fields hm hb).1 hc.2.isEof
  have hslice := TokenStream.slice_of_read hu
    (show _ = before ++ b :: (body ++ (trivia ++ closer ++ rest)) by simpa using hts)
  have hne := blockStatement_ne_nil (a := Assembly.empty.readAll before) hc.1 hb body closer
  rcases hspan.ending.closer_cases with ⟨u, rfl⟩ | ⟨rfl, rfl⟩
  · have hresumed := hspan.resumed hm hb hc
    obtain ⟨later, -, hlater⟩ := exists_cut hresumed.1 hc.2.drop
    refine ⟨body, trivia, [u], rest, later, rfl, hspan, hslice,
      fun v hv => tail_cases (hspan.closes v hv), hne, ?_, fun _ => hresumed, by simp, by simp⟩
    rw [← List.cons_append, readAll_append, hlater, hresumed.2] at hall
    rw [← hall, List.append_assoc]
    rfl
  · rw [List.append_nil, List.append_nil] at hc hall hts
    refine ⟨body, trivia, [], [], [], by simp, hspan, hslice, by simp, hne, ?_, by simp, by simp,
      ?_⟩
    · rw [← hall, hspan.ended hm hb hc]
    · intro top below _ hblock
      obtain rfl := hspan.trivia_eq_nil hblock
      rw [List.append_nil] at hts
      exact TokenStream.stop_of_read hu hts

/-- A block that contains another one, with a comment before the semicolon of each, where the
separator is a different one. -/
theorem split_keeps_blocks_with_semicolons :
    let settings := { Settings.standard with separator := ['G', 'O'] }
    let script := "a BEGIN BEGIN x; END/*k*/; y END--t\n; z GO".toList
    let tokens := (TokenStream.read settings 0 script).tokens
    let opener : Token := ⟨.identifier, "BEGIN".toList, 2⟩
    let out := ["a BEGIN BEGIN x; END/*k*/; y END;".toList, ['z']]
    (splitUnchecked settings script).result = .ok out ∧
      tokens = tokens.take 2 ++ opener :: tokens.drop 3 ∧
      (Assembly.empty.readAll (tokens.take 2)).mode = .standard ∧ opener.isBegin = true ∧
      ∃ body trivia closer rest later, tokens.drop 3 = body ++ trivia ++ closer ++ rest ∧
        KeepsBlock script (Assembly.empty.readAll (tokens.take 2)) opener body trivia closer rest
          later out := by
  intro settings script tokens opener out
  have hout : (splitUnchecked settings script).result = .ok out := by
    rw [splitUnchecked_ok_iff]
    decide +kernel
  have hts : tokens = tokens.take 2 ++ opener :: tokens.drop 3 := by decide +kernel
  have hm : (Assembly.empty.readAll (tokens.take 2)).mode = .standard := by decide +kernel
  exact ⟨hout, hts, hm, by decide, split_keeps_blocks hout hts hm (by decide)⟩

end SqlStatements
