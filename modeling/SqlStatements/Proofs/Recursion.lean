import SqlStatements.Proofs.Blocks

namespace SqlStatements

/-! Blocks are read with a stack of frames. Here they are read a second time, by a procedure that
calls itself for each block within a block, and the two are shown to do the same. -/

inductive BlockEnding where
  | closed
  | leftOpen (blocks : Nat)
  | failed (why : Failure)
deriving DecidableEq

/-- What the tokens behind an `END` say about its block. -/
inductive EndVerdict where
  | closes
  | goesOn
  | fails (why : Failure)
deriving DecidableEq

/-- What has been read from a cursor on: how it ended, the text it adds to the statement, and
the cursor behind it. -/
structure Cursor.Outcome (κ : Type) (c : Cursor) where
  ending : κ
  text : Text
  last : Cursor
  shorter : last.remaining.length ≤ c.remaining.length

namespace Cursor

def Outcome.behind {κ : Type} {c d : Cursor} (text : Text) (o : Outcome κ d)
    (h : d.remaining.length ≤ c.remaining.length) : Outcome κ c :=
  ⟨o.ending, text ++ o.text, o.last, Nat.le_trans o.shorter h⟩

theorem remaining_le {c d : Cursor} {r : Except Failure Token} (h : c.nextToken = (r, d)) :
    d.remaining.length ≤ c.remaining.length := by
  cases r with
  | error e =>
    obtain rfl := failure_stays h
    exact Nat.le_refl _
  | ok t =>
    rw [(nextToken_shape h).2.1, List.length_append]
    exact Nat.le_add_left _ _

theorem remaining_lt {c d : Cursor} {t : Token} (h : c.nextToken = (.ok t, d))
    (he : ¬ t.isEof = true) : d.remaining.length < c.remaining.length :=
  (nextToken_moves (remaining_ne_nil h (by simpa using he)) h).1

/-- Looks behind an `END` for the token that decides about its block. -/
def lookahead (outermost : Bool) (held : Text) (c : Cursor) : Outcome EndVerdict c :=
  match h : c.nextToken with
  | (.error why, d) => ⟨.fails why, [], d, remaining_le h⟩
  | (.ok t, d) =>
    if _he : t.isEof then ⟨.closes, [], d, remaining_le h⟩
    else if t.isTrivia then (d.lookahead outermost (held ++ t.text)).behind [] (remaining_le h)
    else if t.kind = .separator then
      ⟨.closes, if outermost then [] else held ++ t.text, d, remaining_le h⟩
    else if t.text = [';'] then
      ⟨.closes, (if outermost then [] else held) ++ t.text, d, remaining_le h⟩
    else ⟨.goesOn, held ++ t.text, d, remaining_le h⟩
termination_by c.remaining.length
decreasing_by exact remaining_lt h _he

/-- Goes on behind a block within another one, unless the reading has come to its end there. -/
def Outcome.resume {c : Cursor} (inner : Outcome BlockEnding c)
    (goOn : (d : Cursor) → d.remaining.length ≤ c.remaining.length → Outcome BlockEnding d) :
    Outcome BlockEnding c :=
  match inner.ending with
  | .closed => (goOn inner.last inner.shorter).behind inner.text inner.shorter
  | .leftOpen blocks => ⟨.leftOpen (blocks + 1), inner.text, inner.last, inner.shorter⟩
  | .failed why => ⟨.failed why, inner.text, inner.last, inner.shorter⟩

/-- Goes on behind an `END`, unless it has closed its block. -/
def Outcome.settle {c : Cursor} (ahead : Outcome EndVerdict c)
    (goOn : (d : Cursor) → d.remaining.length ≤ c.remaining.length → Outcome BlockEnding d) :
    Outcome BlockEnding c :=
  match ahead.ending with
  | .closes => ⟨.closed, ahead.text, ahead.last, ahead.shorter⟩
  | .goesOn => (goOn ahead.last ahead.shorter).behind ahead.text ahead.shorter
  | .fails why => ⟨.failed why, ahead.text, ahead.last, ahead.shorter⟩

/-- Reads on in a block whose `BEGIN` has been read. A `BEGIN` in it is a block of its own, which
is read first. -/
def block (outermost : Bool) (c : Cursor) : Outcome BlockEnding c :=
  match h : c.nextToken with
  | (.error why, d) => ⟨.failed why, [], d, remaining_le h⟩
  | (.ok t, d) =>
    if _he : t.isEof then ⟨.leftOpen 1, [], d, remaining_le h⟩
    else if t.isBegin then
      ((d.block false).resume fun e _hd => e.block outermost).behind t.text (remaining_le h)
    else if t.isEnd then
      ((d.lookahead outermost []).settle fun e _hd => e.block outermost).behind t.text
        (remaining_le h)
    else (d.block outermost).behind t.text (remaining_le h)
termination_by c.remaining.length
decreasing_by
  · exact remaining_lt h _he
  · exact Nat.lt_of_le_of_lt _hd (remaining_lt h _he)
  · exact Nat.lt_of_le_of_lt _hd (remaining_lt h _he)
  · exact remaining_lt h _he

/-- The states that a run from one state to another comes through, where each one but the last
is in a mode of the given sort. -/
inductive Runs (p : Assembly.Mode → Prop) : Cursor → Assembly → Cursor → Assembly → Prop where
  | stays (c : Cursor) (a : Assembly) : Runs p c a c a
  | reads {c d e : Cursor} {a b : Assembly} {t : Token} :
      p a.mode → c.nextToken = (.ok t, d) → Runs p d (a.read t) e b → Runs p c a e b

namespace Runs
variable {p : Assembly.Mode → Prop} {c d e : Cursor} {a b z : Assembly}

theorem trans (h : Runs p c a d b) (k : Runs p d b e z) : Runs p c a e z := by
  induction h with
  | stays c a => exact k
  | reads hp ht _ ih => exact .reads hp ht (ih k)

theorem one {t : Token} (hp : p a.mode) (ht : c.nextToken = (.ok t, d)) :
    Runs p c a d (a.read t) :=
  .reads hp ht (.stays _ _)

/-- Splitting from a state on is splitting from any state that its run comes through. -/
theorem assemble (hp : ∀ m, p m → m ≠ .finished) (h : Runs p c a d b) :
    c.assemble a = d.assemble b := by
  induction h with
  | stays c a => rfl
  | reads hm ht _ ih => rw [assemble_of_ok (hp _ hm) ht, ih]

end Runs
end Cursor

namespace Assembly

def Inside (m : Mode) : Prop := m.isInside = true

@[simp] theorem push_nil (a : Assembly) : a.push [] = a := rfl

theorem goTo_self {a : Assembly} {mode : Mode} (h : a.mode = mode) : a.goTo mode = a := by
  subst h
  rfl

/-- Closing a block does not depend on the mode. -/
theorem close_goTo (a : Assembly) (mode : Mode) (below : List Frame) :
    (a.goTo mode).close below = a.close below := by
  cases below <;> rfl

/-- The assembly after `text` has been written, and after whatever has been logged. -/
def extended (a : Assembly) (text : Text) (events : List Event) : Assembly :=
  { a with buffer := a.buffer.push text, events := events }

theorem extended_nil (a : Assembly) : a.extended [] a.events = a := rfl

theorem extended_goTo_extended (a : Assembly) (s t : Text) (es fs : List Event) (mode : Mode) :
    ((a.extended s es).goTo mode).extended t fs = (a.extended (s ++ t) fs).goTo mode := by
  simp [extended, goTo]

end Assembly

namespace Cursor
open Assembly

/-- The run with the stack from `END` on does what the lookahead says. -/
def FollowsLookahead (c : Cursor) (a : Assembly) (top : Frame) (below : List Frame)
    (o : Outcome EndVerdict c) : Prop :=
  match o.ending with
  | .closes => Runs Inside c a o.last ((a.push o.text).close below)
  | .goesOn => Runs Inside c a o.last ((a.push o.text).goTo (.block top below))
  | .fails why => ∃ held, Runs Inside c a o.last ((a.push o.text).goTo (.closing top below held)) ∧
      o.last.nextToken = (.error why, o.last)

/-- The run with the stack of frames does what the recursive reading of its top block says. -/
def FollowsBlock (c : Cursor) (a : Assembly) (below : List Frame)
    (o : Outcome BlockEnding c) : Prop :=
  ∃ events, match o.ending with
  | .closed => Runs Inside c a o.last ((a.extended o.text events).close below)
  | .leftOpen blocks => Runs Inside c a o.last
      ((((a.extended o.text events).log (.blocksLeftOpen (below.length + blocks))).flush).goTo
        .standard)
  | .failed why => ∃ mode, Inside mode ∧
      Runs Inside c a o.last ((a.extended o.text events).goTo mode) ∧
        o.last.nextToken = (.error why, o.last)

/-- Trivia only make an `END` wait longer. -/
theorem FollowsLookahead.behind {c d : Cursor} {a : Assembly} {mode : Mode} {top : Frame}
    {below : List Frame} {o : Outcome EndVerdict d} (h : FollowsLookahead d (a.goTo mode) top below o)
    (hrun : Runs Inside c a d (a.goTo mode)) (hle : d.remaining.length ≤ c.remaining.length) :
    FollowsLookahead c a top below (o.behind [] hle) := by
  obtain ⟨verdict, text, last, hlast⟩ := o
  cases verdict with
  | closes =>
    have hend : Runs Inside d (a.goTo mode) last (((a.push text).goTo mode).close below) := h
    rw [close_goTo] at hend
    exact hrun.trans hend
  | goesOn => exact hrun.trans h
  | fails why =>
    obtain ⟨held, hfail, herror⟩ := h
    exact ⟨held, hrun.trans hfail, herror⟩

theorem followsLookahead (c : Cursor) {a : Assembly} {top : Frame} {below : List Frame}
    {held : Text} (hm : a.mode = .closing top below held) :
    FollowsLookahead c a top below (c.lookahead top.outermost held) := by
  -- on what is left of the text, past the trivia behind the `END`
  generalize hn : c.remaining.length = n
  induction n using Nat.strongRecOn generalizing c a held with
  | ind n ih =>
    have hin : Inside a.mode := by rw [hm]; rfl
    rw [lookahead]
    split
    · rename_i why d h
      obtain rfl := failure_stays h
      refine ⟨held, ?_, h⟩
      rw [push_nil, goTo_self hm]
      exact .stays _ _
    · rename_i t d h
      have hone := Runs.one hin h
      rw [read_closing hm, readClosing] at hone
      split
      · rename_i he
        rw [if_pos he] at hone
        exact hone
      rename_i he
      rw [if_neg he] at hone
      split
      · rename_i htrivia
        rw [if_pos htrivia] at hone
        exact (ih _ (hn ▸ remaining_lt h he) d rfl rfl).behind hone (remaining_le h)
      rename_i htrivia
      rw [if_neg htrivia] at hone
      split
      · rename_i hk
        rw [if_pos hk] at hone
        cases ho : top.outermost <;> simpa [FollowsLookahead, ho] using hone
      rename_i hk
      rw [if_neg hk] at hone
      split
      · rename_i htext
        rw [if_pos htext] at hone
        cases ho : top.outermost <;> simpa [FollowsLookahead, ho] using hone
      · rename_i htext
        rw [if_neg htext] at hone
        exact hone

namespace FollowsBlock
variable {c d : Cursor} {a : Assembly} {mode : Mode} {top : Frame} {below : List Frame}

/-- A block goes on behind the text that has been read of it. -/
theorem behind {text : Text} {events : List Event} {o : Outcome BlockEnding d}
    (h : FollowsBlock d ((a.extended text events).goTo mode) below o)
    (hrun : Runs Inside c a d ((a.extended text events).goTo mode))
    (hle : d.remaining.length ≤ c.remaining.length) :
    FollowsBlock c a below (o.behind text hle) := by
  obtain ⟨ending, more, last, hlast⟩ := o
  obtain ⟨later, h⟩ := h
  refine ⟨later, ?_⟩
  cases ending with
  | closed =>
    dsimp only at h
    rw [extended_goTo_extended, close_goTo] at h
    exact hrun.trans h
  | leftOpen blocks =>
    dsimp only at h
    rw [extended_goTo_extended] at h
    exact hrun.trans h
  | failed why =>
    dsimp only at h
    rw [extended_goTo_extended] at h
    obtain ⟨mode', hin, hfail, herror⟩ := h
    exact ⟨mode', hin, hrun.trans hfail, herror⟩

/-- Where a block within another one closes, its frame leaves the stack and the other block goes
on. Where the input ends, all blocks of the stack end. -/
theorem resume {inner : Outcome BlockEnding c}
    {goOn : (d : Cursor) → d.remaining.length ≤ c.remaining.length → Outcome BlockEnding d}
    (h : FollowsBlock c (a.goTo mode) (top :: below) inner)
    (hgoOn : ∀ events, FollowsBlock inner.last
      ((a.extended inner.text events).goTo (.block top below)) below
        (goOn inner.last inner.shorter)) :
    FollowsBlock c (a.goTo mode) below (inner.resume goOn) := by
  obtain ⟨ending, text, last, hlast⟩ := inner
  obtain ⟨events, h⟩ := h
  cases ending with
  | closed =>
    have hclosed : Runs Inside c (a.goTo mode) last
        (((a.goTo mode).extended text (events ++ [.blockClosed (below.length + 1)])).goTo
          (.block top below)) := h
    have hopen : FollowsBlock last (((a.goTo mode).extended text
        (events ++ [.blockClosed (below.length + 1)])).goTo (.block top below)) below
          (goOn last hlast) := hgoOn _
    exact behind hopen hclosed hlast
  | leftOpen blocks =>
    refine ⟨events, ?_⟩
    dsimp only at h
    rw [List.length_cons, Nat.add_right_comm] at h
    exact h
  | failed why => exact ⟨events, h⟩

/-- The `END` of a block closes it, or the block goes on. -/
theorem settle {ahead : Outcome EndVerdict c}
    {goOn : (d : Cursor) → d.remaining.length ≤ c.remaining.length → Outcome BlockEnding d}
    (h : FollowsLookahead c (a.goTo mode) top below ahead)
    (hgoOn : FollowsBlock ahead.last
      ((a.extended ahead.text a.events).goTo (.block top below)) below
        (goOn ahead.last ahead.shorter)) :
    FollowsBlock c (a.goTo mode) below (ahead.settle goOn) := by
  obtain ⟨verdict, text, last, hlast⟩ := ahead
  cases verdict with
  | closes => exact ⟨a.events, h⟩
  | goesOn =>
    have hopen : FollowsBlock last (((a.goTo mode).extended text a.events).goTo
        (.block top below)) below (goOn last hlast) := hgoOn
    exact behind hopen h hlast
  | fails why =>
    obtain ⟨held, hfail, herror⟩ := h
    exact ⟨a.events, .closing top below held, rfl, hfail, herror⟩

end FollowsBlock

theorem followsBlock (c : Cursor) {a : Assembly} {top : Frame} {below : List Frame}
    (hm : a.mode = .block top below) : FollowsBlock c a below (c.block top.outermost) := by
  -- on what is left of the text, for every stack below the frame: an inner block has this frame
  -- below its own, and what follows it has the stack that was there before
  generalize hn : c.remaining.length = n
  induction n using Nat.strongRecOn generalizing c a top below with
  | ind n ih =>
    have hin : Inside a.mode := by rw [hm]; rfl
    rw [block]
    split
    · rename_i why d h
      obtain rfl := failure_stays h
      refine ⟨a.events, a.mode, hin, ?_, h⟩
      rw [extended_nil, goTo_self rfl]
      exact .stays _ _
    · rename_i t d h
      have hone := Runs.one hin h
      rw [read_block hm, readBlock] at hone
      split
      · rename_i he
        rw [if_pos he] at hone
        exact ⟨a.events, hone⟩
      rename_i he
      have hlt := remaining_lt h he
      rw [if_neg he] at hone
      split
      · rename_i hbegin
        rw [if_pos hbegin] at hone
        have hinner := ih _ (hn ▸ hlt) d (a := ((a.push t.text).log
          (.blockNested (below.length + 2))).goTo (.block ⟨false⟩ (top :: below))) rfl rfl
        refine FollowsBlock.behind (FollowsBlock.resume hinner ?_) hone (remaining_le h)
        intro events
        exact ih _ (hn ▸ Nat.lt_of_le_of_lt (Outcome.shorter _) hlt) _ rfl rfl
      rename_i hbegin
      rw [if_neg hbegin] at hone
      split
      · rename_i hend
        rw [if_pos hend] at hone
        have hahead := followsLookahead d
          (a := (a.push t.text).goTo (.closing top below [])) rfl
        refine FollowsBlock.behind (FollowsBlock.settle hahead ?_) hone (remaining_le h)
        exact ih _ (hn ▸ Nat.lt_of_le_of_lt (Outcome.shorter _) hlt) _ rfl rfl
      · rename_i hend
        rw [if_neg hend] at hone
        have hpush : a.push t.text = (a.extended t.text a.events).goTo (.block top below) :=
          (goTo_self (a := a.push t.text) hm).symm
        rw [hpush] at hone
        exact (ih _ (hn ▸ hlt) d rfl rfl).behind hone (remaining_le h)

end Cursor

namespace Assembly

theorem nested_close {a : Assembly} {top : Frame} {below : List Frame} (h : top.Nested below) :
    (a.close below).mode.Nested := by
  rw [mode_close]
  cases below with
  | nil => trivial
  | cons next below => exact h.2

/-- Every token keeps the outermost frame at the bottom of the stack, the empty one too. -/
theorem nested_read {a : Assembly} (h : a.mode.Nested) (t : Token) : (a.read t).mode.Nested := by
  cases hm : a.mode with
  | standard =>
    by_cases hb : t.isBegin = true
    · rw [(read_begin_fields hm hb).1]
      rfl
    · rw [read_standard hm, readStandard]
      cases t.kind <;> simp [hb, hm, Mode.Nested]
  | block top below =>
    rw [hm] at h
    cases he : t.isEof with
    | true =>
      rw [read_block hm, readBlock, if_pos he]
      trivial
    | false => exact (keeps_read_block hm h he).nested
  | closing top below held =>
    rw [hm] at h
    cases he : t.isEof with
    | true =>
      rw [read_closing hm, readClosing, if_pos he]
      exact nested_close h
    | false =>
      rcases read_closing_cases hm he with ⟨-, hr⟩ | ⟨-, -, -, hr⟩ | ⟨-, -, -, hr⟩ | ⟨-, -, hr⟩
      · rw [hr]
        exact h
      · rw [hr]
        exact nested_close h
      · rw [hr]
        exact nested_close h
      · rw [hr]
        exact h
  | finished =>
    rw [read_finished hm, hm]
    trivial

theorem nested_readAll {a : Assembly} (h : a.mode.Nested) (ts : List Token) :
    (a.readAll ts).mode.Nested :=
  readAll_of_read (p := fun a => a.mode.Nested) (fun _ t hn => nested_read hn t) h ts

end Assembly

namespace Cursor
open Assembly

theorem Runs.nested {p : Mode → Prop} {c d : Cursor} {a b : Assembly} (h : Runs p c a d b)
    (ha : a.mode.Nested) : b.mode.Nested := by
  induction h with
  | stays c a => exact ha
  | reads _ _ _ ih => exact ih (nested_read ha _)

end Cursor

open Assembly Cursor

/-- In every state of a split the outermost frame, and only that one, lies at the bottom of the
stack. From behind a `BEGIN` outside of blocks the stack is worked off as the recursive reading of
the block says: to the same place in the script, with the same text for the statement, and with
the same ending. -/
theorem blocks_follow_recursion {settings : Settings} {script : Text} {c : Cursor} {a : Assembly}
    (h : Runs (· ≠ .finished) (.start settings script) .empty c a) :
    splitUnchecked settings script = c.assemble a ∧ a.mode.Nested ∧
      ∀ t d, a.mode = .standard → c.nextToken = (.ok t, d) → t.isBegin = true →
        FollowsBlock d (a.read t) [] (d.block true) := by
  refine ⟨h.assemble fun _ hm => hm, h.nested trivial, ?_⟩
  intro t d hm _ hb
  exact followsBlock d (read_begin_fields hm hb).1

/-- The end of the input closes the inner block, behind its `END`, and leaves the outer one
open. -/
theorem blocks_follow_recursion_to_end_of_input :
    let script := "BEGIN BEGIN x END /* c */".toList
    let c := Cursor.start .standard script
    let keyword : Token := ⟨.identifier, "BEGIN".toList, 0⟩
    let d := c.advance 5
    Runs (· ≠ .finished) c .empty c .empty ∧ c.nextToken = (.ok keyword, d) ∧
      (d.block true).ending = .leftOpen 1 ∧ (d.block true).text = " BEGIN x END".toList ∧
      FollowsBlock d (empty.read keyword) [] (d.block true) := by
  intro script c keyword d
  have hnext : c.nextToken = (.ok keyword, d) := rfl
  refine ⟨.stays _ _, hnext, by decide +kernel, by decide +kernel, ?_⟩
  exact (blocks_follow_recursion (.stays _ _)).2.2 keyword d rfl hnext (by decide +kernel)

end SqlStatements
