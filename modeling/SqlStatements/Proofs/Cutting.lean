import SqlStatements.Proofs.Blocks
import SqlStatements.Proofs.Resembling

namespace SqlStatements

namespace Assembly

/-- The two assemblies differ at most in what they have logged. -/
structure Alike (a b : Assembly) : Prop where
  mode : a.mode = b.mode
  gap : a.gap = b.gap
  buffer : a.buffer = b.buffer
  statements : a.statements = b.statements

theorem Mode.resembles_eq_iff {m n : Mode} : m.Resembles Eq n ↔ m = n := by
  constructor
  · intro h
    cases h with
    | standard => rfl
    | block top below => rfl
    | closing top below hheld => rw [hheld]
    | finished => rfl
  · rintro rfl
    cases m with
    | standard => exact .standard
    | block top below => exact .block top below
    | closing top below held => exact .closing top below rfl
    | finished => exact .finished

theorem resembles_eq_iff {a b : Assembly} : a.Resembles Eq b ↔ a.Alike b := by
  have hstatements : List.Forall₂ Eq a.statements b.statements ↔ a.statements = b.statements := by
    rw [List.forall₂_eq_eq_eq]
  constructor
  · intro h
    exact ⟨Mode.resembles_eq_iff.mp h.mode, h.gap, Buffer.ext_text h.buffer,
      hstatements.mp h.statements⟩
  · intro h
    exact ⟨Mode.resembles_eq_iff.mpr h.mode, h.gap, congrArg Buffer.text h.buffer,
      hstatements.mpr h.statements⟩

namespace Alike

theorem refl (a : Assembly) : a.Alike a := ⟨rfl, rfl, rfl, rfl⟩

variable {a b : Assembly}

/-- Reading depends on the kinds and the texts of tokens, and on nothing that is logged. -/
theorem readAll {ts us : List Token} (h : a.Alike b)
    (ht : ts.map Token.content = us.map Token.content) : (a.readAll ts).Alike (b.readAll us) := by
  have hcontent : List.Forall₂ (fun t u => t.content = u.content) ts us := by
    rw [← List.forall₂_eq_eq_eq, List.forall₂_map_left_iff, List.forall₂_map_right_iff] at ht
    exact ht
  apply resembles_eq_iff.mp
  apply (resembles_eq_iff.mpr h).readAll Text.resemblance_eq
  exact hcontent.imp fun _ _ => Token.resembles_of_content

theorem conclude (h : a.Alike b) : a.conclude.Alike b.conclude :=
  resembles_eq_iff.mp ((resembles_eq_iff.mpr h).conclude Text.resemblance_eq)

end Alike

/-- How blocks open and close does not depend on what is in the buffer. -/
theorem mode_read_congr {a b : Assembly} (h : a.mode = b.mode) (t : Token) :
    (a.read t).mode = (b.read t).mode := by
  cases hm : a.mode with
  | standard =>
    rw [read_standard hm, read_standard (h ▸ hm), readStandard, readStandard]
    cases t.kind <;> simp [h]
    split <;> simp [h]
  | block top below =>
    rw [read_block hm, read_block (h ▸ hm), readBlock, readBlock]
    repeat' split
    all_goals simp [h]
  | closing top below held =>
    rw [read_closing hm, read_closing (h ▸ hm), readClosing, readClosing]
    repeat' split
    all_goals simp [mode_close]
  | finished => rw [read_finished hm, read_finished (h ▸ hm), h]

theorem mode_readAll_congr {a b : Assembly} (h : a.mode = b.mode) (ts : List Token) :
    (a.readAll ts).mode = (b.readAll ts).mode := by
  induction ts generalizing a b with
  | nil => exact h
  | cons t ts ih => exact ih (mode_read_congr h t)

theorem BlockSpan.congr {a b : Assembly} {body trivia closer rest : List Token}
    (h : a.BlockSpan body trivia closer rest) (hm : a.mode = b.mode) :
    b.BlockSpan body trivia closer rest := by
  refine ⟨?_, h.passed, ?_⟩
  · intro us hu
    rw [← mode_readAll_congr hm]
    exact h.inside us hu
  · rw [← mode_readAll_congr hm]
    exact h.ending

def opened : Assembly := empty.goTo (.block ⟨true⟩ [])

end Assembly

open Assembly Rendering

/-- The statements into which a run of tokens is cut. A segment ends with the run, with a
separator or with a block, and a block ends with a closer or with the run. -/
inductive Cut : List Token → List Text → Prop where
  | segment {seg : List Token} : (∀ t ∈ seg, isPlain t = true) → Cut seg (segment seg).kept
  | separator {seg ts : List Token} {t : Token} {later : List Text} :
      (∀ t ∈ seg, isPlain t = true) → t.kind = .separator → Cut ts later →
      Cut (seg ++ t :: ts) ((Rendering.segment seg).kept ++ later)
  | block {seg body trivia ts : List Token} {b u : Token} {later : List Text} :
      (∀ t ∈ seg, isPlain t = true) → b.isBegin = true →
      opened.BlockSpan body trivia [u] ts → Cut ts later →
      Cut (seg ++ b :: (body ++ trivia ++ u :: ts))
        ((Rendering.segment (seg ++ [b]) ++ body.flatMap Token.text ++ tail u).kept ++ later)
  | unclosed {seg body trivia : List Token} {b : Token} :
      (∀ t ∈ seg, isPlain t = true) → b.isBegin = true → opened.BlockSpan body trivia [] [] →
      Cut (seg ++ b :: (body ++ trivia))
        (Rendering.segment (seg ++ [b]) ++ body.flatMap Token.text).kept

/-- A run of tokens from between two statements is cut into statements in one way or another,
and these are what it adds. -/
theorem exists_cut {s : Settings} {a : Assembly} {ts : List Token} (ha : a.Fresh)
    (hc : Token.Chain s ts) :
    ∃ later, Cut ts later ∧ (a.readAll ts).conclude.statements = a.statements ++ later := by
  generalize hn : ts.length = n
  induction n using Nat.strongRecOn generalizing a ts with
  | ind n ih =>
    cases hf : ts.find? (fun t => !isPlain t) with
    | none =>
      have hp : ∀ t ∈ ts, isPlain t = true := by simpa using hf
      rw [← List.append_nil ts] at hc
      obtain ⟨hm, hst, ht⟩ := ha.readAll hc hp
      refine ⟨_, .segment hp, ?_⟩
      rw [conclude_standard hm, hst, ht]
    | some b =>
      obtain ⟨hb, seg, after, rfl, hseg⟩ := List.find?_eq_some_iff_append.mp hf
      have hp : ∀ t ∈ seg, isPlain t = true := by simpa using hseg
      have hafter : Token.Chain s after := hc.drop.2
      by_cases hbegin : b.isBegin = true
      · obtain ⟨hm, hg, hst, ht⟩ := ha.readAll_begin hc hp hbegin
        obtain ⟨body, trivia, closer, rest, rfl, hspan⟩ := exists_blockSpan hm hafter.isEof
        have hopen := hspan.congr (b := opened) hm
        rcases hspan.ending.closer_cases with ⟨u, rfl⟩ | ⟨rfl, rfl⟩
        · obtain ⟨hfresh, hkept⟩ := hspan.fresh_of_closer hm hg
            (fun t h => hafter.isEof t (List.mem_append_left rest h)) (by simp)
          obtain ⟨later, hcut, hlater⟩ := ih rest.length (by simp at hn; omega) hfresh
            hafter.drop rfl
          refine ⟨_, by simpa using Cut.block hp hbegin hopen hcut, ?_⟩
          rw [readAll_append, readAll_cons, readAll_append, hlater, hkept, hst, ht]
          simp
        · have hlast := (hspan.conclude_of_no_closer hm
            (fun t h => hafter.isEof t (by simp [h]))).2
          refine ⟨_, by simpa using Cut.unclosed hp hbegin hopen, ?_⟩
          simp only [List.append_nil]
          rw [readAll_append, readAll_cons, hlast, hst, ht]
      · have hsep : b.kind = .separator := by simpa [isPlain, hbegin] using hb
        obtain ⟨hm, hst, ht⟩ := ha.readAll hc hp
        obtain ⟨hfresh, hkept⟩ := read_separator hm hsep
        obtain ⟨later, hcut, hlater⟩ := ih after.length (by simp at hn; omega) hfresh hafter rfl
        refine ⟨_, .separator hp hsep hcut, ?_⟩
        rw [readAll_append, readAll_cons, hlater, hkept, hst, ht, List.append_assoc]

/-- Without blocks only separators end segments. -/
theorem Cut.eq_statements {ts : List Token} {out : List Text} (h : Cut ts out)
    (hb : ∀ t ∈ ts, t.isBegin = false) : out = Rendering.statements ts := by
  have hplain : ∀ {seg : List Token}, (∀ t ∈ seg, isPlain t = true) →
      ∀ t ∈ seg, (t.kind == .separator) = false := by
    intro seg hp t ht
    have := hp t ht
    simp only [isPlain, Bool.and_eq_true, bne_iff_ne] at this
    simpa using this.1
  induction h with
  | segment hp =>
    rw [Rendering.statements, List.splitOnP_eq_singleton (hplain hp)]
    rfl
  | @separator seg ts t later hp ht _ ih =>
    rw [Rendering.statements, List.splitOnP_append_cons_of_forall_mem (hplain hp) t (by simp [ht]),
      ih (fun u hu => hb u (by simp [hu])), List.map_cons, ← List.singleton_append,
      List.filter_append]
    rfl
  | @block seg _ _ _ b _ _ _ hbegin =>
    rw [hb b (by simp)] at hbegin
    cases hbegin
  | @unclosed seg _ _ b _ hbegin =>
    rw [hb b (by simp)] at hbegin
    cases hbegin

/-- Between two statements tokens without blocks add the statements that they spell. -/
theorem Assembly.Fresh.statements {s : Settings} {a : Assembly} {ts : List Token} (ha : a.Fresh)
    (hc : Token.Chain s ts) (hb : ∀ t ∈ ts, t.isBegin = false) :
    (a.readAll ts).conclude.statements = a.statements ++ Rendering.statements ts := by
  obtain ⟨later, hcut, hlater⟩ := exists_cut ha hc
  rw [hlater, hcut.eq_statements hb]

/-- A script without blocks is split into the statements that its tokens spell: cut at the
separators, without comments, and with one space in place of blanks, or with one line break
where blanks with a line break join a literal to the one before it. -/
theorem split_without_blocks {settings : Settings} {script : Text}
    (hs : (TokenStream.read settings 0 script).unclosed = none)
    (hb : ∀ t ∈ (TokenStream.read settings 0 script).tokens, t.isBegin = false) :
    (splitUnchecked settings script).result =
      .ok (Rendering.statements (TokenStream.read settings 0 script).tokens) := by
  have hfresh : Assembly.empty.Fresh := fresh_iff.mpr ⟨rfl, rfl, rfl⟩
  obtain ⟨later, hcut, hlater⟩ := exists_cut hfresh (TokenStream.chain_read hs).1
  rw [splitUnchecked_ok_iff]
  refine ⟨hs, ?_⟩
  rw [hlater, hcut.eq_statements hb]
  rfl

/-- A separator of two letters, two literals that a line break joins, one that it does not
join, and a comment between two words. -/
theorem split_without_blocks_joins_literals :
    let settings := { Settings.standard with separator := ['G', 'O'] }
    let script := "--a\nSELECT 'x'  /*c*/\n'y' -- d\n \"z\" GO;GO GO\n a/**/b\n".toList
    (TokenStream.read settings 0 script).unclosed = none ∧
      (∀ t ∈ (TokenStream.read settings 0 script).tokens, t.isBegin = false) ∧
      (splitUnchecked settings script).result =
        .ok ["SELECT 'x'\n'y' \"z\"".toList, [';'], ['a', 'b']] := by
  intro settings script
  have hs : (TokenStream.read settings 0 script).unclosed = none := by decide +kernel
  have hb : ∀ t ∈ (TokenStream.read settings 0 script).tokens, t.isBegin = false := by
    decide +kernel
  refine ⟨hs, hb, ?_⟩
  rw [split_without_blocks hs hb]
  decide +kernel

end SqlStatements
