import SqlStatements.Proofs.Cores

namespace SqlStatements

def SplitsToItself (s : Text) : Prop := (split .standard s).result = .ok [s]

theorem result_split_standard (s : Text) :
    (split .standard s).result = (splitUnchecked .standard s).result :=
  result_split_of_valid rfl s

/-- What tokens spell is split like the tokens. -/
theorem split_of_chain {us : List Token} (h : Token.Chain .standard us) :
    (split .standard (us.flatMap Token.text)).result =
      .ok (Assembly.empty.readAll us).conclude.statements := by
  obtain ⟨hu, hts⟩ := TokenStream.read_of_chain h 0
  rw [result_split_standard, splitUnchecked_ok_iff]
  exact ⟨hu, ((Assembly.Alike.refl .empty).readAll hts).conclude.statements⟩

/-- The blanks around a text do not belong to its statement. -/
theorem Text.kept_append_append {l x r : Text} (hl : isAllBlank l = true)
    (hr : isAllBlank r = true) (hfirst : ∃ c ∈ x.head?, isBlank c = false)
    (hlast : ∃ c ∈ x.getLast?, isBlank c = false) : (l ++ x ++ r).kept = [x] := by
  have htrim := Text.trim_append_append hl hr hfirst hlast
  obtain ⟨c, hc, -⟩ := hfirst
  have hne : (l ++ x ++ r).trim ≠ [] := by
    rw [htrim]
    rintro rfl
    cases hc
  rw [Text.kept_of_ne_nil hne, htrim]

theorem Text.kept_of_edges {x : Text} (hfirst : ∃ c ∈ x.head?, isBlank c = false)
    (hlast : ∃ c ∈ x.getLast?, isBlank c = false) : x.kept = [x] := by
  simpa using Text.kept_append_append (l := []) (r := []) rfl rfl hfirst hlast

namespace Assembly
open Rendering Token

theorem fresh_empty : Assembly.empty.Fresh := fresh_iff.mpr ⟨rfl, rfl, rfl⟩

theorem mode_readAll_plain {s : Settings} {a : Assembly} {ts us : List Token}
    (h : a.mode = .standard) (hc : Chain s (ts ++ us)) (hp : ∀ t ∈ ts, isPlain t = true) :
    (a.readAll ts).mode = .standard := by
  induction ts generalizing a with
  | nil => exact h
  | cons t ts ih =>
    exact ih (mode_read_plain h (hp t (by simp)) hc.1.isEof) hc.2 (fun u hu => hp u (by simp [hu]))

theorem mode_readAll_begin {s : Settings} {a : Assembly} {ts us : List Token} {b : Token}
    (h : a.mode = .standard) (hc : Chain s (ts ++ b :: us)) (hp : ∀ t ∈ ts, isPlain t = true)
    (hb : b.isBegin = true) : (a.readAll (ts ++ [b])).mode = opened.mode := by
  rw [readAll_append, readAll_cons, readAll_nil, read_begin (mode_readAll_plain h hc hp) hb]
  rfl

theorem CommentsSpaced.append {a : Assembly} {ts us : List Token}
    (h : a.CommentsSpaced (ts ++ us)) : (a.readAll ts).CommentsSpaced us := by
  induction ts generalizing a with
  | nil => exact h
  | cons t ts ih => exact ih h.2

/-- A core is read back as it was condensed, and so is all that is kept behind it. -/
theorem chain_core {a : Assembly} {lead ts ws us : List Token} {v : Token}
    (hm : a.mode = .standard) (hs : a.CommentsSpaced (lead ++ (ts ++ v :: ws)))
    (hc : Chain .standard (lead ++ (ts ++ v :: ws))) (hlead : ∀ t ∈ lead, isPlain t = true)
    (hcore : Core ts v) (h : Shrunk ws us) :
    Chain .standard (condensed none [] (ts ++ [v]) ++ us) := by
  have hrest : Chain .standard (ts ++ v :: ws) := hc.drop
  have hlast : v.isTrivia = false := isTrivia_eq_false_of_isSignificant hcore.last.1
  have hshrunk : Shrunk (v :: ws) (v :: us) := .keep (by simp [hlast]) h
  apply (shrunk_segment (mode_readAll_plain hm hc hlead) hs.append _ hcore.last.1 _
    hshrunk).chain hrest
  · intro t ht
    exact ⟨hcore.plain t ht, hrest.isEof t (List.mem_append_left _ ht)⟩
  · intro t ht
    apply (hcore.first t _).1
    rw [List.head?_append, Option.mem_def.mp ht]
    rfl

/-- The statement of a segment without blocks is split into itself. -/
theorem splitsToItself_segment {a : Assembly} {seg ws : List Token} (hm : a.mode = .standard)
    (hs : a.CommentsSpaced (seg ++ ws)) (hc : Chain .standard (seg ++ ws))
    (hp : ∀ t ∈ seg, isPlain t = true)
    (hws : ∀ c ∈ (ws.flatMap text).head?, c ∉ Lexeme.quotes) :
    ∀ s ∈ (segment seg).kept, SplitsToItself s := by
  rcases exists_core hc hp with hfaint | ⟨lead, ts, v, trail, rfl, hlead, htrail, hcore⟩
  · have htrim : (segment seg).trim = [] := by
      rw [segment_eq]
      exact Text.trim_eq_nil (isAllBlank_added hfaint)
    simp [Text.kept, htrim]
  have hmove : lead ++ (ts ++ v :: trail) ++ ws = lead ++ (ts ++ v :: (trail ++ ws)) := by simp
  rw [hmove] at hs hc
  have htail : Chain .standard (trail ++ ws) := (hc.drop : Chain .standard (ts ++ v :: _)).drop.2
  have hchain := chain_core hm hs hc (fun t ht => hp t (by simp [ht])) hcore
    (.cut (htail.head_of_isFaint htrail hws))
  rw [List.append_nil] at hchain
  have hcond : segment (condensed none [] (ts ++ [v])) = segment (ts ++ [v]) :=
    added_condensed none [] (ts ++ [v])
  have hedges := Text.kept_of_edges (hcore.head_segment hc.drop) (hcore.getLast?_segment hc.drop)
  have hself : SplitsToItself (segment (ts ++ [v])) := by
    obtain ⟨front, hfront, hplain⟩ := @condensed_concat none [] ts v
      (isTrivia_eq_false_of_isSignificant hcore.last.1) hcore.plain
    have hall : ∀ t ∈ condensed none [] (ts ++ [v]), isPlain t = true := by
      rw [hfront]
      intro t ht
      rcases List.mem_append.mp ht with ht | ht
      · exact hplain t ht
      · exact hp t (by rw [List.mem_singleton.mp ht]; simp)
    have hsplit := split_of_chain hchain
    rw [← List.append_nil (condensed _ _ _)] at hchain
    obtain ⟨hmode, hst, hbuf⟩ := fresh_empty.readAll hchain hall
    rw [conclude_standard hmode, hst, hbuf, hcond, hedges, text_condensed] at hsplit
    exact hsplit
  obtain ⟨r, hr, hseg⟩ := @added_append_faint none [] (lead ++ (ts ++ [v])) trail htrail
  obtain ⟨l, hl, hfront⟩ := hcore.segment_append hlead
  have htext : segment (lead ++ (ts ++ v :: trail)) = l ++ segment (ts ++ [v]) ++ r := by
    rw [← hfront, segment_eq, segment_eq, ← hseg]
    simp
  intro x hx
  rw [htext, Text.kept_append_append hl hr (hcore.head_segment hc.drop)
    (hcore.getLast?_segment hc.drop)] at hx
  rw [List.mem_singleton.mp hx]
  exact hself

/-- A block that stays open up to the end of a text is split off without what an `END` still
holds there. -/
theorem split_core_block {ts us : List Token} {b : Token} (hcore : Core ts b)
    (hb : b.isBegin = true) (hc : Chain .standard (condensed none [] (ts ++ [b]) ++ us))
    (hin : opened.StaysInside us) :
    ∃ x, (split .standard (segment (ts ++ [b]) ++ us.flatMap text)).result = .ok x.kept ∧
      x ++ (opened.readAll us).mode.held = segment (ts ++ [b]) ++ us.flatMap text := by
  obtain ⟨front, hfront, hplain⟩ := @condensed_concat none [] ts b
    (isTrivia_eq_false_of_isSignificant hcore.last.1) hcore.plain
  have htext : segment (ts ++ [b]) ++ us.flatMap text =
      (front ++ b :: us).flatMap text := by
    have := text_condensed none [] (ts ++ [b])
    rw [hfront] at this
    rw [segment_eq, ← this]
    simp
  have hcond : segment (front ++ [b]) = segment (ts ++ [b]) := by
    rw [← hfront]
    exact added_condensed none [] (ts ++ [b])
  have hall : front ++ [b] ++ us = front ++ b :: us := by simp
  rw [hfront, hall] at hc
  obtain ⟨hmode, -, hst, hbuf⟩ := fresh_empty.readAll_begin hc hplain hb
  generalize hopen : (Assembly.empty.readAll front).read b = a at hmode hst hbuf
  have hsame : a.mode = opened.mode := hmode
  have hinside : a.StaysInside us := fun vs hv => by
    rw [mode_readAll_congr hsame]
    exact hin vs hv
  have hkeeps := hinside.keeps (by rw [hmode]; rfl) hc.drop.2.isEof
  refine ⟨(a.readAll us).buffer.text, ?_, ?_⟩
  · have hend := conclude_inside hinside.last
    rw [htext, split_of_chain hc, readAll_append, readAll_cons, hopen, hend, hkeeps.statements,
      hst]
    rfl
  · have hbuffer := hkeeps.text
    rw [mode_readAll_congr hsame, hmode, hbuf, hcond] at hbuffer
    simpa [Mode.held] using hbuffer

/-- Such a text is split into itself exactly if no `END` holds anything there. -/
theorem splitsToItself_core_block {ts us : List Token} {b : Token} (hcore : Core ts b)
    (hb : b.isBegin = true) (hc : Chain .standard (condensed none [] (ts ++ [b]) ++ us))
    (hin : opened.StaysInside us)
    (hedges : (segment (ts ++ [b]) ++ us.flatMap text).kept =
      [segment (ts ++ [b]) ++ us.flatMap text]) :
    SplitsToItself (segment (ts ++ [b]) ++ us.flatMap text) ↔
      (opened.readAll us).mode.held = [] := by
  obtain ⟨x, hsplit, hx⟩ := split_core_block hcore hb hc hin
  rw [SplitsToItself, hsplit]
  constructor
  · intro h
    have hmem : segment (ts ++ [b]) ++ us.flatMap text ∈ x.kept := by
      rw [Except.ok.inj h]
      simp
    have hle := Text.length_trim_le x
    rw [← Text.eq_trim_of_mem_kept hmem, ← hx, List.length_append] at hle
    exact List.length_eq_zero_iff.mp (by omega)
  · intro h
    rw [h, List.append_nil] at hx
    rw [hx, hedges]

/-- The statement of a block that stays open up to the end of what is kept of it. -/
theorem exists_statement_of_block {a : Assembly} {seg rest us : List Token} {b : Token} {r : Text}
    (hm : a.mode = .standard) (hs : a.CommentsSpaced (seg ++ b :: rest))
    (hc : Chain .standard (seg ++ b :: rest)) (hp : ∀ t ∈ seg, isPlain t = true)
    (hb : b.isBegin = true) (hshrunk : Shrunk rest us) (hin : opened.StaysInside us)
    (hlast : us = [] ∨ ∃ c ∈ (us.flatMap text).getLast?, isBlank c = false)
    (hr : Text.isAllBlank r = true) :
    ∃ x, (segment (seg ++ [b]) ++ us.flatMap text ++ r).kept = [x] ∧
      (SplitsToItself x ↔ (opened.readAll us).mode.held = []) := by
  obtain ⟨lead, ts, rfl, hlead, hcore⟩ := exists_core_begin hc hp hb
  rw [List.append_assoc] at hs hc
  have hchain := chain_core hm hs hc (fun t ht => hp t (by simp [ht])) hcore hshrunk
  have hfirst : ∃ c ∈ (segment (ts ++ [b]) ++ us.flatMap text).head?, isBlank c = false :=
    Text.head_append (hcore.head_segment hc.drop) _
  have hend : ∃ c ∈ (segment (ts ++ [b]) ++ us.flatMap text).getLast?, isBlank c = false := by
    rcases hlast with rfl | hlast
    · simpa using hcore.getLast?_segment hc.drop
    · exact Text.getLast_append hlast _
  obtain ⟨l, hl, hseg⟩ := hcore.segment_append hlead
  refine ⟨_, ?_, splitsToItself_core_block hcore hb hchain hin (Text.kept_of_edges hfirst hend)⟩
  rw [List.append_assoc lead, hseg, List.append_assoc l]
  exact Text.kept_append_append hl hr hfirst hend

end Assembly
end SqlStatements
