import Mathlib.Data.List.Induction
import SqlStatements.Proofs.Lossless
import SqlStatements.Proofs.Rendering

namespace SqlStatements

/-- Only the frame at the bottom of a stack is the outermost one. -/
def Frame.Nested (top : Frame) : List Frame → Prop
  | [] => top.outermost = true
  | next :: below => top.outermost = false ∧ next.Nested below

namespace Assembly

def Mode.isInside : Mode → Bool
  | .standard => false
  | .block _ _ => true
  | .closing _ _ _ => true
  | .finished => false

/-- The trivia that an `END` has passed over so far. -/
def Mode.held : Mode → Text
  | .closing _ _ held => held
  | _ => []

def Mode.Nested : Mode → Prop
  | .block top below => top.Nested below
  | .closing top below _ => top.Nested below
  | _ => True

/-- Within blocks every token is kept, or held until it is known how the `END` before it
goes on. -/
structure Keeps (a : Assembly) (text : Text) (b : Assembly) : Prop where
  text : b.buffer.text ++ b.mode.held = a.buffer.text ++ a.mode.held ++ text
  statements : b.statements = a.statements
  gap : b.gap = a.gap
  nested : b.mode.Nested

theorem Keeps.trans {a b c : Assembly} {s t : Text} (h : a.Keeps s b) (k : b.Keeps t c) :
    a.Keeps (s ++ t) c := by
  refine ⟨?_, k.statements.trans h.statements, k.gap.trans h.gap, k.nested⟩
  rw [k.text, h.text, List.append_assoc]

/-- A step inside of blocks. -/
theorem keeps_read_block {a : Assembly} {top : Frame} {below : List Frame} {t : Token}
    (hm : a.mode = .block top below) (hn : top.Nested below) (ht : t.isEof = false) :
    a.Keeps t.text (a.read t) := by
  rw [read_block hm, readBlock, ht]
  simp only [Bool.false_eq_true, if_false]
  split
  · exact ⟨by simp [hm, Mode.held], rfl, rfl, rfl, hn⟩
  split
  · exact ⟨by simp [hm, Mode.held], rfl, rfl, hn⟩
  · exact ⟨by simp [hm, Mode.held], rfl, rfl, by rw [mode_push, hm]; exact hn⟩

/-- The tokens that close a block behind its `END`. -/
def isCloser (t : Token) : Bool := t.kind == .separator || t.text == [';']

/-- What the statement keeps of the token that closes its outermost block. -/
def tail (t : Token) : Text := if t.kind = .separator then [] else t.text

theorem tail_of_separator {u : Token} (h : u.kind = .separator) : tail u = [] := by
  simp [tail, h]

theorem tail_cases {u : Token} (h : isCloser u = true) :
    u.kind = .separator ∧ tail u = [] ∨
      u.kind ≠ .separator ∧ u.text = [';'] ∧ tail u = [';'] := by
  by_cases hk : u.kind = .separator
  · exact .inl ⟨hk, tail_of_separator hk⟩
  · have ht : u.text = [';'] := by simpa [isCloser, hk] using h
    exact .inr ⟨hk, ht, by simp [tail, hk, ht]⟩

/-- Behind an `END` trivia are held, a closer closes the block, and anything else shows that
the block goes on. -/
theorem read_closing_cases {a : Assembly} {top : Frame} {below : List Frame} {held : Text}
    {t : Token} (hm : a.mode = .closing top below held) (ht : t.isEof = false) :
    t.isTrivia = true ∧ a.read t = a.goTo (.closing top below (held ++ t.text)) ∨
    t.isTrivia = false ∧ isCloser t = true ∧ top.outermost = true ∧
      a.read t = (a.push (tail t)).close below ∨
    t.isTrivia = false ∧ isCloser t = true ∧ top.outermost = false ∧
      a.read t = (a.push (held ++ t.text)).close below ∨
    t.isTrivia = false ∧ isCloser t = false ∧
      a.read t = (a.push (held ++ t.text)).goTo (.block top below) := by
  rw [read_closing hm, readClosing, ht]
  simp only [Bool.false_eq_true, if_false]
  by_cases htr : t.isTrivia = true
  · simp [htr]
  by_cases hs : t.kind = .separator
  · cases ho : top.outermost <;> simp [htr, hs, isCloser, tail, push]
  by_cases hsc : t.text = [';']
  · cases ho : top.outermost <;> simp [htr, hs, hsc, isCloser, tail]
  · simp [htr, hs, hsc, isCloser]

theorem mode_close (a : Assembly) (below : List Frame) :
    (a.close below).mode = match below with
      | [] => .standard
      | top :: below => .block top below := by
  cases below <;> rfl

theorem keeps_read_closing {a : Assembly} {top : Frame} {below : List Frame} {held : Text}
    {t : Token} (hm : a.mode = .closing top below held) (hn : top.Nested below)
    (ht : t.isEof = false) (hi : (a.read t).mode.isInside = true) : a.Keeps t.text (a.read t) := by
  rcases read_closing_cases hm ht with ⟨-, hr⟩ | ⟨-, -, ho, hr⟩ | ⟨-, -, ho, hr⟩ | ⟨-, -, hr⟩
  · rw [hr]
    exact ⟨by simp [hm, Mode.held], rfl, rfl, hn⟩
  · cases below with
    | nil =>
      rw [hr, mode_close] at hi
      cases hi
    | cons next below =>
      rw [hn.1] at ho
      cases ho
  · cases below with
    | nil =>
      rw [hr, mode_close] at hi
      cases hi
    | cons next below =>
      rw [hr]
      exact ⟨by simp [close, hm, Mode.held], rfl, rfl, hn.2⟩
  · rw [hr]
    exact ⟨by simp [hm, Mode.held], rfl, rfl, hn⟩

theorem keeps_read {a : Assembly} {t : Token} (hi : a.mode.isInside = true) (hn : a.mode.Nested)
    (ht : t.isEof = false) (hr : (a.read t).mode.isInside = true) : a.Keeps t.text (a.read t) := by
  cases hm : a.mode with
  | standard => rw [hm] at hi; cases hi
  | finished => rw [hm] at hi; cases hi
  | block top below =>
    rw [hm] at hn
    exact keeps_read_block hm hn ht
  | closing top below held =>
    rw [hm] at hn
    exact keeps_read_closing hm hn ht hr

/-- Some block is open all the time while the tokens are read. -/
def StaysInside (a : Assembly) (ts : List Token) : Prop :=
  ∀ us, us <+: ts → (a.readAll us).mode.isInside = true

theorem StaysInside.of_prefix {a : Assembly} {ts us : List Token} (h : a.StaysInside ts)
    (hp : us <+: ts) : a.StaysInside us :=
  fun vs hv => h vs (hv.trans hp)

theorem StaysInside.last {a : Assembly} {ts : List Token} (h : a.StaysInside ts) :
    (a.readAll ts).mode.isInside = true :=
  h ts (List.prefix_refl ts)

theorem StaysInside.cons {a : Assembly} {t : Token} {ts : List Token}
    (ha : a.mode.isInside = true) (h : (a.read t).StaysInside ts) : a.StaysInside (t :: ts) := by
  intro us hu
  cases us with
  | nil => exact ha
  | cons u us =>
    obtain ⟨rfl, hp⟩ := List.cons_prefix_cons.mp hu
    exact h us hp

/-- While some block is open all text is kept or held. -/
theorem StaysInside.keeps {a : Assembly} {ts : List Token} (h : a.StaysInside ts)
    (hn : a.mode.Nested) (ht : ∀ t ∈ ts, t.isEof = false) :
    a.Keeps (ts.flatMap Token.text) (a.readAll ts) := by
  induction ts using List.reverseRec with
  | nil => exact ⟨by simp, rfl, rfl, hn⟩
  | append_singleton ts t ih =>
    have hk := ih (h.of_prefix (List.prefix_append _ _)) (fun u hu => ht u (by simp [hu]))
    have hi := h.of_prefix (List.prefix_append ts [t])
    have hlast := h.last
    rw [readAll_append, readAll_cons, readAll_nil] at hlast
    have hstep := keeps_read hi.last hk.nested (ht t (by simp)) hlast
    simpa using hk.trans hstep

/-- Either some block stays open, or a first token closes the outermost one. -/
theorem exists_exit (a : Assembly) (ts : List Token) (ha : a.mode.isInside = true) :
    a.StaysInside ts ∨ ∃ xs u ys, ts = xs ++ u :: ys ∧ a.StaysInside xs ∧
      ((a.readAll xs).read u).mode.isInside = false := by
  induction ts generalizing a with
  | nil =>
    left
    intro us hu
    rw [List.prefix_nil.mp hu]
    exact ha
  | cons t ts ih =>
    cases hr : (a.read t).mode.isInside with
    | false =>
      right
      refine ⟨[], t, ts, rfl, ?_, hr⟩
      intro us hu
      rw [List.prefix_nil.mp hu]
      exact ha
    | true =>
      rcases ih (a.read t) hr with h | ⟨xs, u, ys, rfl, hx, hu⟩
      · exact .inl (h.cons ha)
      · exact .inr ⟨t :: xs, u, ys, rfl, hx.cons ha, hu⟩

/-- What leads into the wait for a closer: an `END`, or trivia behind one. -/
theorem closing_of_read {a : Assembly} {t : Token} {top : Frame} {below : List Frame}
    {held : Text} (hi : a.mode.isInside = true) (ht : t.isEof = false)
    (hm : (a.read t).mode = .closing top below held) :
    t.isEnd = true ∧ held = [] ∨
      t.isTrivia = true ∧ ∃ before, a.mode = .closing top below before ∧
        held = before ++ t.text := by
  cases hb : a.mode with
  | standard => rw [hb] at hi; cases hi
  | finished => rw [hb] at hi; cases hi
  | block top' below' =>
    left
    rw [read_block hb, readBlock, ht] at hm
    simp only [Bool.false_eq_true, if_false] at hm
    by_cases hbegin : t.isBegin = true
    · simp [hbegin] at hm
    by_cases hend : t.isEnd = true
    · simp only [hbegin, hend, Bool.false_eq_true, if_true, if_false, mode_goTo] at hm
      cases hm
      exact ⟨hend, rfl⟩
    · simp [hbegin, hend, hb] at hm
  | closing top' below' held' =>
    rcases read_closing_cases hb ht with ⟨htr, hr⟩ | ⟨-, -, -, hr⟩ | ⟨-, -, -, hr⟩ | ⟨-, -, hr⟩
    · rw [hr] at hm
      cases hm
      exact .inr ⟨htr, held', rfl, rfl⟩
    · rw [hr] at hm
      cases below' <;> cases hm
    · rw [hr] at hm
      cases below' <;> cases hm
    · rw [hr] at hm
      cases hm

/-- What an `END` holds are the trivia right behind it. -/
theorem StaysInside.closing {a : Assembly} {ts : List Token} {first top : Frame}
    {rest below : List Frame} {held : Text} (h : a.StaysInside ts)
    (ht : ∀ t ∈ ts, t.isEof = false) (ha : a.mode = .block first rest)
    (hm : (a.readAll ts).mode = .closing top below held) :
    ∃ body trivia, ts = body ++ trivia ∧ (a.readAll body).mode = .closing top below [] ∧
      ∀ u ∈ trivia, u.isTrivia = true := by
  induction ts using List.reverseRec generalizing held with
  | nil =>
    rw [readAll_nil, ha] at hm
    cases hm
  | append_singleton ts t ih =>
    have hpre := h.of_prefix (List.prefix_append ts [t])
    have hread := hm
    rw [readAll_append, readAll_cons, readAll_nil] at hread
    rcases closing_of_read hpre.last (ht t (by simp)) hread with ⟨-, rfl⟩ | ⟨htr, before, hb, -⟩
    · exact ⟨ts ++ [t], [], by simp, hm, by simp⟩
    · obtain ⟨body, trivia, rfl, hbody, htrivia⟩ := ih hpre (fun u hu => ht u (by simp [hu])) hb
      refine ⟨body, trivia ++ [t], by simp, hbody, ?_⟩
      intro u hu
      rcases List.mem_append.mp hu with hu | hu
      · exact htrivia u hu
      · rw [List.mem_singleton.mp hu]
        exact htr

/-- Only a closer behind an `END` of the outermost block leads out of all blocks. -/
theorem exit_shape {a : Assembly} {t : Token} (hi : a.mode.isInside = true) (hn : a.mode.Nested)
    (ht : t.isEof = false) (hx : (a.read t).mode.isInside = false) :
    ∃ held, a.mode = .closing ⟨true⟩ [] held ∧ isCloser t = true ∧ t.isTrivia = false := by
  cases hm : a.mode with
  | standard => rw [hm] at hi; cases hi
  | finished => rw [hm] at hi; cases hi
  | block top below =>
    rw [read_block hm, readBlock, ht] at hx
    simp only [Bool.false_eq_true, if_false] at hx
    by_cases hbegin : t.isBegin = true
    · simp [hbegin, Mode.isInside] at hx
    by_cases hend : t.isEnd = true
    · simp [hbegin, hend, Mode.isInside] at hx
    · simp [hbegin, hend, hm, Mode.isInside] at hx
  | closing top below held =>
    rw [hm] at hn
    rcases read_closing_cases hm ht with ⟨-, hr⟩ | ⟨htr, hc, ho, hr⟩ | ⟨-, -, ho, hr⟩ | ⟨-, -, hr⟩
    · rw [hr] at hx
      cases hx
    · cases below with
      | nil =>
        obtain ⟨outermost⟩ := top
        obtain rfl : outermost = true := ho
        exact ⟨held, rfl, hc, htr⟩
      | cons next below =>
        rw [hr] at hx
        cases hx
    · cases below with
      | nil =>
        rw [show top.outermost = true from hn] at ho
        cases ho
      | cons next below =>
        rw [hr] at hx
        cases hx
    · rw [hr] at hx
      cases hx

/-- At the end of the input the blocks that are still open end their statement. -/
theorem conclude_eq_of_block {a : Assembly} {top : Frame} {below : List Frame}
    (hm : a.mode = .block top below) :
    a.conclude = ((a.log (.blocksLeftOpen (below.length + 1))).flush.goTo .standard).conclude := by
  rw [← conclude_read_eof, read_block hm]
  rfl

/-- The end of the input closes the block whose `END` waits, and drops what is held. -/
theorem conclude_eq_of_closing {a : Assembly} {top : Frame} {below : List Frame} {held : Text}
    (hm : a.mode = .closing top below held) : a.conclude = (a.close below).conclude := by
  rw [← conclude_read_eof, read_closing hm]
  rfl

theorem conclude_block {a : Assembly} {top : Frame} {below : List Frame}
    (hm : a.mode = .block top below) :
    a.conclude.statements = a.statements ++ a.buffer.text.kept := by
  rw [conclude_eq_of_block hm, conclude_standard rfl]
  simp

theorem conclude_inside {a : Assembly} (hi : a.mode.isInside = true) :
    a.conclude.statements = a.statements ++ a.buffer.text.kept := by
  cases hm : a.mode with
  | standard => rw [hm] at hi; cases hi
  | finished => rw [hm] at hi; cases hi
  | block top below => exact conclude_block hm
  | closing top below held =>
    rw [conclude_eq_of_closing hm]
    cases below with
    | nil =>
      rw [conclude_standard rfl]
      simp [close]
    | cons next below => exact conclude_block rfl

theorem readAll_trivia {a : Assembly} {top : Frame} {below : List Frame} {held : Text}
    {ts : List Token} (hm : a.mode = .closing top below held)
    (ht : ∀ t ∈ ts, t.isTrivia = true) :
    a.readAll ts = a.goTo (.closing top below (held ++ ts.flatMap Token.text)) := by
  induction ts generalizing a held with
  | nil =>
    obtain ⟨mode, gap, buffer, statements, events⟩ := a
    cases hm
    simp [goTo]
  | cons t ts ih =>
    have htr := ht t (by simp)
    have hte : t.isEof = false := by
      obtain ⟨kind, text, start⟩ := t
      cases kind <;> first | rfl | cases htr
    rcases read_closing_cases hm hte with ⟨-, hr⟩ | ⟨hn, -⟩ | ⟨hn, -⟩ | ⟨hn, -⟩
    · rw [readAll_cons, hr, ih rfl (fun u hu => ht u (by simp [hu]))]
      simp [goTo]
    all_goals
      rw [htr] at hn
      cases hn

theorem read_closer {a : Assembly} {held : Text} {u : Token}
    (hm : a.mode = .closing ⟨true⟩ [] held) (ht : u.isEof = false) (htr : u.isTrivia = false)
    (hc : isCloser u = true) : a.read u = (a.push (tail u)).close [] := by
  rcases read_closing_cases hm ht with ⟨hn, -⟩ | ⟨-, -, -, hr⟩ | ⟨-, -, hn, -⟩ | ⟨-, hn, -⟩
  · rw [htr] at hn
    cases hn
  · exact hr
  · cases hn
  · rw [hc] at hn
    cases hn

/-- How a block ends whose `body` is kept: at the closer behind its own `END`, at the end of
the input while an `END` waits for its closer, or at the end of the input. -/
inductive BlockEnd : Mode → List Token → List Token → List Token → Prop where
  | closed {trivia rest : List Token} {u : Token} : isCloser u = true → u.isTrivia = false →
      BlockEnd (.closing ⟨true⟩ [] []) trivia [u] rest
  | waiting {top : Frame} {below : List Frame} {trivia : List Token} :
      BlockEnd (.closing top below []) trivia [] []
  | unclosed {top : Frame} {below : List Frame} : BlockEnd (.block top below) [] [] []

theorem BlockEnd.closer_cases {m : Mode} {trivia closer rest : List Token}
    (h : BlockEnd m trivia closer rest) : (∃ u, closer = [u]) ∨ closer = [] ∧ rest = [] := by
  cases h with
  | closed => exact .inl ⟨_, rfl⟩
  | waiting => exact .inr ⟨rfl, rfl⟩
  | unclosed => exact .inr ⟨rfl, rfl⟩

theorem BlockEnd.held {m : Mode} {trivia closer rest : List Token}
    (h : BlockEnd m trivia closer rest) : m.held = [] := by
  cases h <;> rfl

/-- An open block goes on with `body`, which is kept, and with `trivia` and `closer`, which
end it. What comes after it is `rest`. -/
structure BlockSpan (a : Assembly) (body trivia closer rest : List Token) : Prop where
  inside : a.StaysInside (body ++ trivia)
  passed : ∀ u ∈ trivia, u.isTrivia = true
  ending : BlockEnd (a.readAll body).mode trivia closer rest

theorem exists_blockSpan {a : Assembly} {ts : List Token} (hm : a.mode = .block ⟨true⟩ [])
    (ht : ∀ t ∈ ts, t.isEof = false) :
    ∃ body trivia closer rest, ts = body ++ trivia ++ closer ++ rest ∧
      a.BlockSpan body trivia closer rest := by
  have hi : a.mode.isInside = true := by rw [hm]; rfl
  have hn : a.mode.Nested := by rw [hm]; rfl
  rcases exists_exit a ts hi with hs | ⟨xs, u, ys, rfl, hs, hx⟩
  · cases hlast : (a.readAll ts).mode with
    | standard => have := hs.last; rw [hlast] at this; cases this
    | finished => have := hs.last; rw [hlast] at this; cases this
    | block top below =>
      refine ⟨ts, [], [], [], by simp, by simpa using hs, by simp, ?_⟩
      rw [hlast]
      exact .unclosed
    | closing top below held =>
      obtain ⟨body, trivia, rfl, hbody, htrivia⟩ := hs.closing ht hm hlast
      refine ⟨body, trivia, [], [], by simp, hs, htrivia, ?_⟩
      rw [hbody]
      exact .waiting
  · have hxs : ∀ t ∈ xs, t.isEof = false := fun t h => ht t (by simp [h])
    obtain ⟨held, hlast, hc, htr⟩ :=
      exit_shape hs.last (hs.keeps hn hxs).nested (ht u (by simp)) hx
    obtain ⟨body, trivia, rfl, hbody, htrivia⟩ := hs.closing hxs hm hlast
    refine ⟨body, trivia, [u], ys, by simp, hs, htrivia, ?_⟩
    rw [hbody]
    exact .closed hc htr

namespace BlockSpan
variable {a : Assembly} {body trivia closer rest : List Token}

/-- The statement of a block. -/
theorem text_body (h : a.BlockSpan body trivia closer rest) (hm : a.mode = .block ⟨true⟩ [])
    (ht : ∀ t ∈ body, t.isEof = false) :
    (a.readAll body).buffer.text = a.buffer.text ++ body.flatMap Token.text ∧
      (a.readAll body).statements = a.statements ∧ (a.readAll body).gap = a.gap := by
  have hk := (h.inside.of_prefix (List.prefix_append _ _)).keeps (by rw [hm]; rfl) ht
  have htext := hk.text
  rw [h.ending.held, hm, List.append_nil] at htext
  exact ⟨by simpa [Mode.held] using htext, hk.statements, hk.gap⟩

/-- A closed block leaves nothing behind but its statement. -/
theorem fresh_of_closer (h : a.BlockSpan body trivia closer rest)
    (hm : a.mode = .block ⟨true⟩ []) (hg : a.gap = .none)
    (ht : ∀ t ∈ body ++ trivia ++ closer, t.isEof = false) (hc : closer ≠ []) :
    (a.readAll (body ++ trivia ++ closer)).Fresh ∧
      (a.readAll (body ++ trivia ++ closer)).statements = a.statements ++
        (a.buffer.text ++ body.flatMap Token.text ++ closer.flatMap tail).kept := by
  obtain ⟨htext, hst, hgap⟩ := h.text_body hm (fun t hb => ht t (by simp [hb]))
  have hend := h.ending
  generalize hb : (a.readAll body).mode = m at hend
  cases hend with
  | waiting => exact absurd rfl hc
  | unclosed => exact absurd rfl hc
  | @closed _ _ u hclose htr =>
    have hread : (a.readAll (body ++ trivia ++ [u])) =
        (((a.readAll body).goTo (.closing ⟨true⟩ [] (trivia.flatMap Token.text))).push
          (tail u)).close [] := by
      rw [readAll_append, readAll_append, readAll_trivia hb h.passed, List.nil_append]
      exact read_closer (mode_goTo _ _) (ht u (by simp)) htr hclose
    rw [hread]
    refine ⟨fresh_iff.mpr ⟨rfl, hgap.trans hg, rfl⟩, ?_⟩
    simp [close, htext, hst]

/-- At the end of the input a block that is still open leaves its statement. -/
theorem conclude_of_no_closer (h : a.BlockSpan body trivia [] rest)
    (hm : a.mode = .block ⟨true⟩ []) (ht : ∀ t ∈ body, t.isEof = false) :
    rest = [] ∧ (a.readAll (body ++ trivia)).conclude.statements = a.statements ++
      (a.buffer.text ++ body.flatMap Token.text).kept := by
  obtain ⟨htext, hst, -⟩ := h.text_body hm ht
  have hkeep : (a.readAll (body ++ trivia)).buffer = (a.readAll body).buffer ∧
      (a.readAll (body ++ trivia)).statements = (a.readAll body).statements ∧ rest = [] := by
    have hend := h.ending
    have hpassed := h.passed
    generalize hb : (a.readAll body).mode = m at hend
    cases hend with
    | waiting =>
      rw [readAll_append, readAll_trivia hb hpassed]
      exact ⟨rfl, rfl, rfl⟩
    | unclosed =>
      rw [List.append_nil]
      exact ⟨rfl, rfl, rfl⟩
  refine ⟨hkeep.2.2, ?_⟩
  rw [conclude_inside h.inside.last, hkeep.1, hkeep.2.1, htext, hst]

theorem closes (h : a.BlockSpan body trivia closer rest) : ∀ u ∈ closer, isCloser u = true := by
  have hend := h.ending
  generalize (a.readAll body).mode = m at hend
  cases hend with
  | closed hc =>
    intro u hu
    rwa [List.mem_singleton.mp hu]
  | waiting => simp
  | unclosed => simp

theorem closing_of_closer {u : Token} (h : a.BlockSpan body trivia [u] rest) :
    ∃ top below, (a.readAll body).mode = .closing top below [] := by
  have hend := h.ending
  generalize (a.readAll body).mode = m at hend
  cases hend with
  | closed => exact ⟨_, _, rfl⟩

/-- A block that is still open at the end of the input leaves nothing out, unless an `END`
waits for its closer. -/
theorem trivia_eq_nil {top : Frame} {below : List Frame} (h : a.BlockSpan body trivia [] rest)
    (hm : (a.readAll (body ++ trivia)).mode = .block top below) : trivia = [] := by
  have hend := h.ending
  have hpassed := h.passed
  generalize hb : (a.readAll body).mode = m at hend
  cases hend with
  | waiting =>
    rw [readAll_append, readAll_trivia hb hpassed] at hm
    cases hm
  | unclosed => rfl

end BlockSpan
end Assembly
end SqlStatements
