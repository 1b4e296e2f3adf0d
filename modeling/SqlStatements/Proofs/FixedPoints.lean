import SqlStatements.Proofs.Resplitting

namespace SqlStatements

namespace Assembly
open Rendering Token

def Mode.isBlock : Mode → Bool
  | .block _ _ => true
  | _ => false

def Mode.isClosing : Mode → Bool
  | .closing _ _ _ => true
  | _ => false

/-- The last token that is not blank is a comment behind an `END` that waits for its closer,
and the blanks after it show that the block goes on. -/
def EndsLoose (a : Assembly) (ts : List Token) : Prop :=
  (∃ c ∈ (ts.rdropWhile isAllBlank).getLast?, c.kind = .comment) ∧
    (a.readAll (ts.rdropWhile isAllBlank)).mode.isClosing = true ∧
      (a.readAll ts).mode.isBlock = true

theorem rdropWhile_cons_append {ts us : List Token} {t : Token} (ht : t.isAllBlank = false) :
    (ts ++ t :: us).rdropWhile isAllBlank =
      ts ++ t :: us.rdropWhile isAllBlank := by
  induction us using List.reverseRec with
  | nil => simp [ht]
  | append_singleton us u ih =>
    have hmove : ts ++ t :: (us ++ [u]) = ts ++ t :: us ++ [u] := by simp
    rw [hmove, List.rdropWhile_concat, List.rdropWhile_concat, ih]
    split
    · rfl
    · simp

/-- How the input ends is decided behind its last separator or block. -/
theorem endsLoose_append {a : Assembly} {ts us : List Token} {t : Token}
    (ht : t.isAllBlank = false) (hk : t.kind ≠ .comment) :
    a.EndsLoose (ts ++ t :: us) ↔ (a.readAll (ts ++ [t])).EndsLoose us := by
  have hread : ∀ vs, a.readAll (ts ++ t :: vs) = (a.readAll (ts ++ [t])).readAll vs := by
    intro vs
    rw [← readAll_append]
    simp
  rw [EndsLoose, EndsLoose, rdropWhile_cons_append ht, hread, hread]
  cases hus : us.rdropWhile isAllBlank with
  | nil => simp [hk]
  | cons u vs => simp [List.getLast?_append]

theorem EndsLoose.congr {a b : Assembly} {ts : List Token} (h : a.mode = b.mode) :
    a.EndsLoose ts ↔ b.EndsLoose ts := by
  rw [EndsLoose, EndsLoose, mode_readAll_congr h, mode_readAll_congr h]

/-- What is kept of a block ends with an `END` where one waits and holds nothing. -/
theorem getLast?_of_closing {s : Settings} {ts ws : List Token} {top : Frame}
    {below : List Frame} (hin : opened.StaysInside ts) (hc : Chain s (ts ++ ws))
    (hm : (opened.readAll ts).mode = .closing top below []) :
    ∃ c ∈ (ts.flatMap text).getLast?, isBlank c = false := by
  have hne : ts ≠ [] := by
    rintro rfl
    cases hm
  obtain ⟨front, e, rfl⟩ := (List.eq_nil_or_concat' ts).resolve_left hne
  rw [List.append_assoc] at hc
  have he : Leads s e (ws.flatMap text) := hc.leads
  rw [readAll_append, readAll_cons, readAll_nil] at hm
  rw [List.flatMap_append, List.flatMap_singleton, List.getLast?_append_of_ne_nil _ he.1]
  rcases closing_of_read (hin.of_prefix (List.prefix_append _ _)).last he.isEof hm with
    ⟨hend, -⟩ | ⟨-, before, -, hheld⟩
  · have hk := he.nonblank_of_identifier (kind_of_isKeyword hend)
    exact ⟨_, List.getLast?_eq_some_getLast he.1, hk _ (List.getLast_mem he.1)⟩
  · exact absurd (List.append_eq_nil_iff.mp hheld.symm).2 he.1

/-- The statement of a block that ends with an `END` is split into itself. -/
theorem splitsToItself_closing {a : Assembly} {seg body trivia us : List Token} {b : Token}
    {top : Frame} {below : List Frame} (hm : a.mode = .standard)
    (hs : a.CommentsSpaced (seg ++ b :: (body ++ (trivia ++ us))))
    (hc : Chain .standard (seg ++ b :: (body ++ (trivia ++ us))))
    (hp : ∀ t ∈ seg, isPlain t = true) (hb : b.isBegin = true) (hin : opened.StaysInside body)
    (hend : (opened.readAll body).mode = .closing top below [])
    (htrivia : ∀ t ∈ trivia, t.isTrivia = true)
    (hus : ∀ c ∈ (us.flatMap text).head?, c ∉ Lexeme.quotes) :
    ∀ x ∈ (segment (seg ++ [b]) ++ body.flatMap text).kept, SplitsToItself x := by
  have hbody : Chain .standard (body ++ (trivia ++ us)) := hc.drop.2
  have hrest : Chain .standard (trivia ++ us) := hbody.drop
  have hshrunk : Shrunk (body ++ (trivia ++ us)) (body ++ []) :=
    shrunk_append (.cut (hrest.head_of_isFaint (hrest.faint_of_isTrivia htrivia) hus)) (.inl rfl)
  rw [List.append_nil] at hshrunk
  obtain ⟨x, hx, hself⟩ := exists_statement_of_block (r := []) hm hs hc hp hb hshrunk hin
    (.inr (getLast?_of_closing hin hbody hend)) rfl
  rw [List.append_nil] at hx
  rw [hx]
  intro y hy
  rw [List.mem_singleton.mp hy, hself, hend]
  rfl

/-- Within blocks a comment is kept, or held behind an `END`. -/
theorem mode_read_comment {a : Assembly} {c : Token} (hc : c.kind = .comment)
    (hi : a.mode.isInside = true) :
    a.mode.isClosing = false ∧ (a.read c).mode = a.mode ∨
      a.mode.isClosing = true ∧ ∃ top below held,
        (a.read c).mode = .closing top below (held ++ c.text) := by
  have htr : c.isTrivia = true := by simp [isTrivia, hc]
  have heof : c.isEof = false := by simp [Token.isEof, hc]
  cases hm : a.mode with
  | standard => rw [hm] at hi; cases hi
  | finished => rw [hm] at hi; cases hi
  | block top below =>
    left
    rw [read_block hm, readBlock, heof]
    simp [isBegin, isEnd, isKeyword, hc, hm, Mode.isClosing]
  | closing top below held =>
    right
    rcases read_closing_cases hm heof with ⟨-, hr⟩ | ⟨hn, -⟩ | ⟨hn, -⟩ | ⟨hn, -⟩
    · exact ⟨rfl, top, below, held, by rw [hr]; rfl⟩
    all_goals
      rw [htr] at hn
      cases hn

/-- Only a comment can be trimmed so that it reads differently, and then only what an `END`
holds of it changes. -/
theorem read_trimEnd {a : Assembly} {z : Token} {w : Text} (hz : Leads .standard z w)
    (hi : a.mode.isInside = true) (hr : (a.read z).mode.isInside = true)
    (hb : z.isAllBlank = false) :
    (a.read z.trimEnd).mode.isInside = true ∧
      ((a.read z.trimEnd).mode.held = [] ↔
        ¬(z.kind = .comment ∧ (a.read z).mode.isClosing = true)) := by
  by_cases hk : z.kind = .comment
  · rcases mode_read_comment hk hi with ⟨hopen, hread⟩ | ⟨hclosing, top, below, held, hread⟩
    · rcases mode_read_comment (c := z.trimEnd) hk hi with ⟨-, htrim⟩ | ⟨hc, -⟩
      · rw [htrim, hread]
        refine ⟨hi, ?_⟩
        have hheld : a.mode.held = [] := by
          cases hm : a.mode with
          | closing top below held => rw [hm] at hopen; cases hopen
          | standard => rfl
          | block top below => rfl
          | finished => rfl
        simp [hheld, hopen]
      · rw [hopen] at hc
        cases hc
    · rcases mode_read_comment (c := z.trimEnd) hk hi with ⟨hc, -⟩ | ⟨-, top', below', held', htrim⟩
      · rw [hclosing] at hc
        cases hc
      · rw [htrim, hread]
        simp [Mode.isInside, Mode.held, Mode.isClosing, hk, trimEnd_ne_nil hb]
  · rw [hz.trimEnd_eq hk hb]
    refine ⟨hr, iff_of_true ?_ fun h => hk h.1⟩
    cases hm : (a.read z).mode with
    | standard => rfl
    | finished => rfl
    | block top below => rfl
    | closing top below held =>
      rcases closing_of_read hi hz.isEof hm with ⟨-, hheld⟩ | ⟨htr, -⟩
      · exact hheld
      · have := isFaint_of_isTrivia hz htr
        simp [isFaint, hk, hb] at this

/-- Without the blanks at its end, an open block is read again, and an `END` holds something
there only if the block ends loosely. -/
theorem exists_trimmed {body : List Token} (hc : Chain .standard body)
    (hin : opened.StaysInside body) (hend : (opened.readAll body).mode.isBlock = true) :
    ∃ us r, Text.isAllBlank r = true ∧ body.flatMap text = us.flatMap text ++ r ∧
      Shrunk body us ∧ opened.StaysInside us ∧
      (us = [] ∨ ∃ c ∈ (us.flatMap text).getLast?, isBlank c = false) ∧
      ((opened.readAll us).mode.held = [] ↔ ¬ opened.EndsLoose body) := by
  have hparts : body.rdropWhile isAllBlank ++ body.rtakeWhile isAllBlank = body :=
    List.rdropWhile_append_rtakeWhile
  have hblanks : ∀ t ∈ body.rtakeWhile isAllBlank, t.isAllBlank = true :=
    fun t ht => List.mem_rtakeWhile_imp ht
  by_cases hne : body.rdropWhile isAllBlank = []
  · rw [hne, List.nil_append] at hparts
    rw [hparts] at hblanks
    have hall := isBlank_of_isAllBlank hblanks
    refine ⟨[], body.flatMap text, List.all_eq_true.mpr hall, rfl, ?_,
      hin.of_prefix List.nil_prefix, .inl rfl, ?_⟩
    · apply Shrunk.cut
      intro c h
      exact (not_mem_quotes_of_isBlank (hall c (List.mem_of_head? h))).1
    · simp [EndsLoose, hne, opened, Mode.held]
  obtain ⟨front, z, hz⟩ := (List.eq_nil_or_concat' _).resolve_left hne
  have hzb : z.isAllBlank = false := by
    have := List.rdropWhile_last_not isAllBlank _ hne
    simpa [hz] using this
  rw [hz] at hparts
  generalize body.rtakeWhile isAllBlank = blanks at hparts hblanks
  obtain rfl : front ++ (z :: blanks) = body := by rw [← hparts]; simp
  have hfront : opened.StaysInside (front ++ [z]) := hin.of_prefix ⟨blanks, by simp⟩
  have hstep : ∀ u : Token, opened.readAll (front ++ [u]) = (opened.readAll front).read u := by
    intro u
    rw [readAll_append, readAll_cons, readAll_nil]
  have hread := hfront.last
  rw [hstep] at hread
  obtain ⟨hinside, hheld⟩ := read_trimEnd hc.leads
    (hfront.of_prefix (List.prefix_append _ _)).last hread hzb
  obtain ⟨r, hr, htext, hshrunk⟩ := shrunk_trimEnd hc.leads hblanks hzb
  refine ⟨front ++ [z.trimEnd], r, hr, htext, hshrunk, ?_, .inr ?_, ?_⟩
  · intro vs hv
    rcases List.prefix_concat_iff.mp hv with rfl | hv
    · rw [hstep]
      exact hinside
    · exact hfront vs (hv.trans (List.prefix_append _ _))
  · rw [List.flatMap_append, List.flatMap_singleton,
      List.getLast?_append_of_ne_nil _ (trimEnd_ne_nil hzb)]
    exact getLast?_trimEnd hzb
  · rw [hstep, hheld, EndsLoose, hz, hstep, hend]
    simp

/-- The statement of a block that is open at the end of the input is split into itself unless
a comment is uncovered when the blanks behind it are trimmed. -/
theorem exists_statement_of_unclosed {a : Assembly} {seg body : List Token} {b : Token}
    (hm : a.mode = .standard) (hs : a.CommentsSpaced (seg ++ b :: body))
    (hc : Chain .standard (seg ++ b :: body)) (hp : ∀ t ∈ seg, isPlain t = true)
    (hb : b.isBegin = true) (hin : opened.StaysInside body)
    (hend : (opened.readAll body).mode.isBlock = true) :
    ∃ x, (segment (seg ++ [b]) ++ body.flatMap text).kept = [x] ∧
      (SplitsToItself x ↔ ¬ a.EndsLoose (seg ++ b :: body)) := by
  have hloose : a.EndsLoose (seg ++ b :: body) ↔ opened.EndsLoose body := by
    have hk := kind_of_isKeyword hb
    rw [endsLoose_append (hc.leads.solid_of_isKeyword hb).2 (by simp [hk]),
      EndsLoose.congr (mode_readAll_begin hm hc hp hb)]
  obtain ⟨us, r, hr, htext, hshrunk, hinside, hlast, hheld⟩ := exists_trimmed hc.drop.2 hin hend
  rw [hloose, ← hheld, htext, ← List.append_assoc]
  exact exists_statement_of_block hm hs hc hp hb hshrunk hinside hlast hr

theorem head_of_semicolon {t : Token} {us : List Token} (ht : t.text = [';']) :
    ∀ c ∈ ((t :: us).flatMap text).head?, c ∉ Lexeme.quotes := by
  intro c hc
  rw [List.flatMap_cons, ht] at hc
  obtain rfl := Option.some.inj hc
  decide

theorem isAllBlank_of_semicolon {t : Token} (ht : t.text = [';']) : t.isAllBlank = false := by
  rw [isAllBlank, ht]
  decide

/-- Of the statements of a run of tokens at most the last one is not split into itself, and
that only if the run ends loosely. -/
theorem exists_last_of_cut {ts : List Token} {out : List Text} (h : Cut ts out) {a : Assembly}
    (hm : a.mode = .standard) (hs : a.CommentsSpaced ts) (hc : Chain .standard ts) :
    ∃ front last, out = front ++ last ∧ (∀ s ∈ front, SplitsToItself s) ∧
      (last = [] ∧ ¬ a.EndsLoose ts ∨
        ∃ s, last = [s] ∧ (SplitsToItself s ↔ ¬ a.EndsLoose ts)) := by
  induction h generalizing a with
  | @segment seg hp =>
    rw [← List.append_nil seg] at hs hc
    refine ⟨_, [], (List.append_nil _).symm,
      splitsToItself_segment hm hs hc hp (by simp), .inl ⟨rfl, ?_⟩⟩
    rintro ⟨-, -, hblock⟩
    rw [mode_readAll_plain hm hc hp] at hblock
    cases hblock
  | @separator seg ts t later hp ht _ ih =>
    obtain ⟨-, hsemi⟩ := hc.leads.semicolon (by simp [isCloser, ht])
    have hmode : (a.readAll (seg ++ [t])).mode = .standard := by
      rw [readAll_append]
      exact (read_separator (mode_readAll_plain hm hc hp) ht).1.mode
    have hrest : (a.readAll (seg ++ [t])).CommentsSpaced ts :=
      CommentsSpaced.append (by simpa using hs)
    obtain ⟨front, last, rfl, hfront, hlast⟩ := ih hmode hrest hc.drop.2
    refine ⟨(segment seg).kept ++ front, last, (List.append_assoc _ _ _).symm, ?_, ?_⟩
    · intro s h
      rcases List.mem_append.mp h with h | h
      · exact splitsToItself_segment hm hs hc hp (head_of_semicolon hsemi) s h
      · exact hfront s h
    · rwa [endsLoose_append (isAllBlank_of_semicolon hsemi) (by simp [ht])]
  | @block seg body trivia ts b u later hp hb hspan _ ih =>
    have hmove : seg ++ b :: (body ++ trivia ++ u :: ts) =
        seg ++ b :: (body ++ trivia) ++ u :: ts := by simp
    have hbody : seg ++ b :: (body ++ trivia ++ u :: ts) =
        seg ++ b :: (body ++ (trivia ++ u :: ts)) := by simp
    have hopen := mode_readAll_begin hm hc hp hb
    have hafter : Chain .standard (body ++ trivia ++ u :: ts) := hc.drop.2
    obtain ⟨hsep, hsemi⟩ := hafter.leads.semicolon (hspan.closes u (by simp))
    have hmode : (a.readAll (seg ++ b :: (body ++ trivia) ++ [u])).mode = .standard := by
      have hfresh := (hspan.fresh_of_closer rfl rfl
        (fun t ht => hafter.isEof t (by simp at ht ⊢; tauto)) (by simp)).1
      have hsplit : seg ++ b :: (body ++ trivia) ++ [u] =
          seg ++ [b] ++ (body ++ trivia ++ [u]) := by simp
      rw [hsplit, readAll_append, mode_readAll_congr hopen]
      exact hfresh.mode
    have hrest : (a.readAll (seg ++ b :: (body ++ trivia) ++ [u])).CommentsSpaced ts :=
      CommentsSpaced.append (by simpa using hs)
    obtain ⟨front, last, rfl, hfront, hlast⟩ := ih hmode hrest hafter.drop.2
    refine ⟨_ ++ front, last, (List.append_assoc _ _ _).symm, ?_, ?_⟩
    · intro s h
      rcases List.mem_append.mp h with h | h
      · obtain ⟨top, below, hend⟩ := hspan.closing_of_closer
        rw [(tail_of_separator hsep), List.append_nil] at h
        rw [hbody] at hs hc
        exact splitsToItself_closing hm hs hc hp hb
          (hspan.inside.of_prefix (List.prefix_append _ _)) hend hspan.passed
          (head_of_semicolon hsemi) s h
      · exact hfront s h
    · rwa [hmove, endsLoose_append (isAllBlank_of_semicolon hsemi) (by simp [hsep])]
  | @unclosed seg body trivia b hp hb hspan =>
    have hopen := mode_readAll_begin hm hc hp hb
    have hend := hspan.ending
    have hinside := hspan.inside
    have hpassed := hspan.passed
    generalize hmode : (opened.readAll body).mode = m at hend
    cases hend with
    | @waiting top below =>
      have hwhole : seg ++ b :: (body ++ trivia) = seg ++ b :: (body ++ (trivia ++ [])) := by simp
      refine ⟨_, [], (List.append_nil _).symm, ?_, .inl ⟨rfl, ?_⟩⟩
      · rw [hwhole] at hs hc
        exact splitsToItself_closing hm hs hc hp hb
          (hinside.of_prefix (List.prefix_append _ _)) hmode hpassed (by simp)
      · rintro ⟨-, -, hblock⟩
        have hsplit : seg ++ b :: (body ++ trivia) = seg ++ [b] ++ (body ++ trivia) := by simp
        rw [hsplit, readAll_append, mode_readAll_congr hopen, readAll_append,
          readAll_trivia hmode hpassed] at hblock
        cases hblock
    | @unclosed top below =>
      rw [List.append_nil] at hs hc hinside ⊢
      obtain ⟨x, hx, hself⟩ := exists_statement_of_unclosed hm hs hc hp hb hinside
        (by rw [hmode]; rfl)
      exact ⟨[], [x], hx, by simp, .inr ⟨x, rfl, hself⟩⟩

end Assembly

open Assembly

/-- Where comments between two tokens come with blanks, each statement of a script is split
into itself, up to the last one, which is not exactly if the script ends loosely. -/
theorem statements_split_into_themselves {script : Text} {out : List Text}
    (hout : (split .standard script).result = .ok out)
    (hs : Assembly.empty.CommentsSpaced (TokenStream.read .standard 0 script).tokens) :
    (∀ s ∈ out.dropLast, SplitsToItself s) ∧
      ∀ s ∈ out.getLast?, SplitsToItself s ↔
        ¬ Assembly.empty.EndsLoose (TokenStream.read .standard 0 script).tokens := by
  rw [result_split_standard, splitUnchecked_ok_iff] at hout
  obtain ⟨hu, hall⟩ := hout
  obtain ⟨hc, -⟩ := TokenStream.chain_read hu
  obtain ⟨later, hcut, hlater⟩ := exists_cut fresh_empty hc
  obtain rfl : later = out := hlater.symm.trans hall
  obtain ⟨front, last, rfl, hfront, hlast⟩ := exists_last_of_cut hcut rfl hs hc
  rcases hlast with ⟨rfl, hloose⟩ | ⟨s, rfl, hself⟩
  · rw [List.append_nil]
    constructor
    · intro s h
      exact hfront s (List.dropLast_subset _ h)
    intro s h
    exact iff_of_true (hfront s (List.mem_of_getLast? h)) hloose
  · rw [List.dropLast_concat, List.getLast?_concat]
    refine ⟨hfront, ?_⟩
    intro x hx
    rw [← Option.some.inj hx]
    exact hself

/-- Three statements: one with a comment and joined literals, one with a nested block, and
one with a quote that opens nothing and a block that ends loosely. -/
theorem statements_split_into_themselves_but_loose_one :
    let script := ("a 'b' /*c's*/\n'd'; BEGIN BEGIN x; END /*k*/; END --y\n; " ++
      "e'f BEGIN END--z\n\u00A0").toList
    let out := ["a 'b'\n'd'".toList, "BEGIN BEGIN x; END /*k*/; END".toList,
      "e'f BEGIN END--z".toList]
    (split .standard script).result = .ok out ∧
      Assembly.empty.CommentsSpaced (TokenStream.read .standard 0 script).tokens ∧
      (∀ s ∈ out.dropLast, SplitsToItself s) ∧
        ∀ s ∈ out.getLast?, SplitsToItself s ↔
          ¬ Assembly.empty.EndsLoose (TokenStream.read .standard 0 script).tokens := by
  intro script out
  have hout : (split .standard script).result = .ok out := by
    rw [result_split_standard, splitUnchecked_ok_iff]
    decide +kernel
  have hs : Assembly.empty.CommentsSpaced (TokenStream.read .standard 0 script).tokens := by
    decide +kernel
  exact ⟨hout, hs, statements_split_into_themselves hout hs⟩

/-- A comment behind an `END` comes to stand at the end of a statement, where it is dropped,
when the blank that kept it in the block is trimmed. -/
theorem not_all_statements_split_into_themselves :
    ¬ ∀ (script : Text) (out : List Text), (split .standard script).result = .ok out →
      Assembly.empty.CommentsSpaced (TokenStream.read .standard 0 script).tokens →
        ∀ s ∈ out, SplitsToItself s := by
  intro h
  have hout : (split .standard "BEGIN END--c\n\u00A0".toList).result =
      .ok ["BEGIN END--c".toList] := by
    rw [result_split_standard, splitUnchecked_ok_iff]
    decide +kernel
  have hagain : (split .standard "BEGIN END--c".toList).result = .ok ["BEGIN END".toList] := by
    rw [result_split_standard, splitUnchecked_ok_iff]
    decide +kernel
  have hself := h _ _ hout (by decide +kernel) "BEGIN END--c".toList (by simp)
  rw [SplitsToItself, hagain] at hself
  exact absurd (Except.ok.inj hself) (by decide)

end SqlStatements
