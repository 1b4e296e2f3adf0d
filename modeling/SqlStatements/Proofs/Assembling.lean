import SqlStatements.Proofs.Streams
import SqlStatements.Statement.Split

namespace SqlStatements

/-- The statement that a text leaves. Blank text leaves none. -/
def Text.kept (t : Text) : List Text := [t.trim].filter (· ≠ [])

@[simp] theorem Text.kept_nil : Text.kept [] = [] := rfl

theorem Text.kept_of_ne_nil {t : Text} (h : t.trim ≠ []) : t.kept = [t.trim] := by
  simp [Text.kept, h]

theorem Text.eq_trim_of_mem_kept {s t : Text} (h : s ∈ t.kept) : s = t.trim := by
  simp only [Text.kept, List.mem_filter, List.mem_singleton] at h
  exact h.1

namespace Assembly

def readAll (a : Assembly) (ts : List Token) : Assembly := ts.foldl read a

@[simp] theorem readAll_nil (a : Assembly) : a.readAll [] = a := rfl

@[simp] theorem readAll_cons (a : Assembly) (t : Token) (ts : List Token) :
    a.readAll (t :: ts) = (a.read t).readAll ts := rfl

@[simp] theorem readAll_append (a : Assembly) (ts us : List Token) :
    a.readAll (ts ++ us) = (a.readAll ts).readAll us :=
  List.foldl_append

/-- What each reading keeps holds behind any tokens. -/
theorem readAll_of_read {p : Assembly → Prop} (hread : ∀ a t, p a → p (a.read t)) {a : Assembly}
    (h : p a) (ts : List Token) : p (a.readAll ts) := by
  induction ts generalizing a with
  | nil => exact h
  | cons t ts ih => exact ih (hread a t h)

theorem read_finished {a : Assembly} (h : a.mode = .finished) (t : Token) : a.read t = a := by
  unfold read
  rw [h]

/-- The end of the input is the same wherever it lies. -/
theorem read_eof (a : Assembly) (offset : Nat) : a.read (.eof offset) = a.read (.eof 0) := by
  unfold read
  split <;> rfl

/-- The assembly once the end of the input has been read as often as it takes. -/
def conclude (a : Assembly) : Assembly :=
  ((a.read (.eof 0)).read (.eof 0)).read (.eof 0)

theorem endReads_read_le (a : Assembly) :
    (a.read (.eof 0)).mode.endReads ≤ a.mode.endReads - 1 := by
  by_cases h : a.mode = .finished
  · rw [read_finished h, h]
    exact Nat.le_refl _
  · have := endReads_read_lt (t := .eof 0) h rfl
    omega

theorem finished_of_endReads {m : Mode} (h : m.endReads = 0) : m = .finished := by
  cases m with
  | standard => cases h
  | block top below => cases h
  | closing top below held => cases below <;> cases h
  | finished => rfl

theorem conclude_finished (a : Assembly) : a.conclude.mode = .finished := by
  have h₀ := a.mode.endReads_le
  have h₁ := endReads_read_le a
  have h₂ := endReads_read_le (a.read (.eof 0))
  have h₃ := endReads_read_le ((a.read (.eof 0)).read (.eof 0))
  apply finished_of_endReads
  unfold conclude
  omega

/-- The end that comes before the end of the input adds nothing to it. -/
theorem conclude_read_eof (a : Assembly) : (a.read (.eof 0)).conclude = a.conclude :=
  read_finished a.conclude_finished (.eof 0)

theorem read_standard {a : Assembly} (h : a.mode = .standard) (t : Token) :
    a.read t = a.readStandard t := by
  rw [read, h]

theorem read_block {a : Assembly} {top : Frame} {below : List Frame}
    (h : a.mode = .block top below) (t : Token) : a.read t = a.readBlock top below t := by
  rw [read, h]

theorem read_closing {a : Assembly} {top : Frame} {below : List Frame} {held : Text}
    (h : a.mode = .closing top below held) (t : Token) :
    a.read t = a.readClosing top below held t := by
  rw [read, h]

section Fields
variable (a : Assembly) (text : Text) (event : Event) (mode : Mode) (t : Token)

@[simp] theorem mode_push : (a.push text).mode = a.mode := rfl

@[simp] theorem gap_push : (a.push text).gap = a.gap := rfl

@[simp] theorem statements_push : (a.push text).statements = a.statements := rfl

@[simp] theorem text_buffer_push : (a.push text).buffer.text = a.buffer.text ++ text :=
  a.buffer.text_push text

@[simp] theorem events_push : (a.push text).events = a.events := rfl

@[simp] theorem gap_log : (a.log event).gap = a.gap := rfl

@[simp] theorem statements_log : (a.log event).statements = a.statements := rfl

@[simp] theorem buffer_log : (a.log event).buffer = a.buffer := rfl

@[simp] theorem events_log : (a.log event).events = a.events ++ [event] := rfl

@[simp] theorem mode_goTo : (a.goTo mode).mode = mode := rfl

@[simp] theorem gap_goTo : (a.goTo mode).gap = a.gap := rfl

@[simp] theorem statements_goTo : (a.goTo mode).statements = a.statements := rfl

@[simp] theorem buffer_goTo : (a.goTo mode).buffer = a.buffer := rfl

@[simp] theorem events_goTo : (a.goTo mode).events = a.events := rfl

@[simp] theorem mode_flush : a.flush.mode = a.mode := rfl

@[simp] theorem buffer_flush : a.flush.buffer = .empty := rfl

@[simp] theorem events_flush : a.flush.events = a.events := rfl

@[simp] theorem statements_flush :
    a.flush.statements = a.statements ++ a.buffer.text.kept := by
  by_cases h : a.buffer.text.trim = [] <;> simp [flush, Text.kept, h]

@[simp] theorem mode_fillGap : (a.fillGap t).mode = a.mode := by
  unfold fillGap
  dsimp only
  split <;> rfl

@[simp] theorem gap_fillGap : (a.fillGap t).gap = .none := by
  unfold fillGap
  dsimp only
  split <;> rfl

@[simp] theorem statements_fillGap : (a.fillGap t).statements = a.statements := by
  unfold fillGap
  dsimp only
  split <;> rfl

@[simp] theorem events_fillGap : (a.fillGap t).events = a.events := by
  unfold fillGap
  dsimp only
  split <;> rfl

end Fields

/-- Only the end of the input finishes an assembly. -/
theorem read_ne_finished {a : Assembly} {t : Token} (ha : a.mode ≠ .finished)
    (ht : t.isEof = false) : (a.read t).mode ≠ .finished := by
  have hk : t.kind ≠ .eof := by simpa [Token.isEof] using ht
  cases hm : a.mode with
  | standard =>
    rw [read_standard hm, readStandard]
    split
    · contradiction
    all_goals try split
    all_goals simp [hm]
  | block top below =>
    rw [read_block hm, readBlock, ht]
    simp only [Bool.false_eq_true, if_false]
    repeat' split
    all_goals simp [hm]
  | closing top below held =>
    rw [read_closing hm, readClosing, ht]
    simp only [Bool.false_eq_true, if_false]
    cases below <;> repeat' split
    all_goals simp [close]
  | finished => exact absurd hm ha

end Assembly

namespace Cursor

theorem assemble_finished {c : Cursor} {a : Assembly} (h : a.mode = .finished) :
    c.assemble a = ⟨a.events, .ok a.statements⟩ := by
  rw [assemble, dif_pos h]

theorem assemble_of_error {c d : Cursor} {a : Assembly} {e : Failure}
    (hf : a.mode ≠ .finished) (h : c.nextToken = (.error e, d)) :
    c.assemble a = ⟨a.events, .error e⟩ := by
  rw [assemble, dif_neg hf]
  split
  · rename_i he
    rw [h] at he
    cases he
    rfl
  · rename_i he
    rw [h] at he
    cases he

theorem assemble_of_ok {c d : Cursor} {a : Assembly} {t : Token}
    (hf : a.mode ≠ .finished) (h : c.nextToken = (.ok t, d)) :
    c.assemble a = d.assemble (a.read t) := by
  rw [assemble, dif_neg hf]
  split
  · rename_i he
    rw [h] at he
    cases he
  · rename_i he
    rw [h] at he
    cases he
    rfl

/-- At the end reading the end once more changes nothing about the outcome. -/
theorem assemble_read_eof {c : Cursor} (h : c.remaining = []) (a : Assembly) :
    c.assemble a = c.assemble (a.read (.eof 0)) := by
  by_cases hf : a.mode = .finished
  · rw [Assembly.read_finished hf]
  · rw [assemble_of_ok hf (nextToken_atEnd h), Assembly.read_eof]

theorem assemble_atEnd {c : Cursor} (h : c.remaining = []) (a : Assembly) :
    c.assemble a = ⟨a.conclude.events, .ok a.conclude.statements⟩ := by
  rw [assemble_read_eof h, assemble_read_eof h, assemble_read_eof h]
  exact assemble_finished a.conclude_finished

/-- The run from a cursor on is a fold over the tokens that lie ahead of it. Either their
stream ends at an opener without an end, and the run fails there, or the run concludes. -/
theorem assemble_eq (c : Cursor) (a : Assembly) (hf : a.mode ≠ .finished) :
    c.assemble a =
      match (TokenStream.read c.settings c.offset c.remaining).failure? c.settings
          c.consumed.text with
      | some e =>
        ⟨(a.readAll (TokenStream.read c.settings c.offset c.remaining).tokens).events, .error e⟩
      | none =>
        let last := (a.readAll (TokenStream.read c.settings c.offset c.remaining).tokens).conclude
        ⟨last.events, .ok last.statements⟩ := by
  generalize hn : c.remaining.length = n
  induction n using Nat.strongRecOn generalizing c a with
  | ind n ih =>
    by_cases hr : c.remaining = []
    · rw [assemble_atEnd hr, hr, TokenStream.read_nil]
      rfl
    cases hc : Token.classify c.settings c.remaining with
    | error why =>
      have ht : c.nextToken = (.error (.unclosed c.settings (.after c.consumed.text) why), c) := by
        simp [nextToken, hc]
      rw [assemble_of_error hf ht, TokenStream.read_of_error _ hc]
      simp [TokenStream.failure?, TokenStream.text]
    | ok found =>
      obtain ⟨kind, n⟩ := found
      have ht : c.nextToken = (.ok ⟨kind, c.remaining.take n, c.offset⟩, c.advance n) := by
        simp [nextToken, hc]
      obtain ⟨hlt, he⟩ := nextToken_moves hr ht
      rw [assemble_of_ok hf ht, ih _ (hn ▸ hlt) (c.advance n) _
        (Assembly.read_ne_finished hf he) rfl, TokenStream.read_of_ok _ hr hc]
      simp [TokenStream.failure?, TokenStream.text, advance]

end Cursor

/-- A script is split by reading its token stream from the empty assembly. -/
theorem splitUnchecked_eq (settings : Settings) (script : Text) :
    splitUnchecked settings script =
      match (TokenStream.read settings 0 script).failure? settings [] with
      | some e =>
        ⟨(Assembly.empty.readAll (TokenStream.read settings 0 script).tokens).events, .error e⟩
      | none =>
        let last := (Assembly.empty.readAll (TokenStream.read settings 0 script).tokens).conclude
        ⟨last.events, .ok last.statements⟩ :=
  (Cursor.start settings script).assemble_eq .empty (by simp [Assembly.empty])

/-- Under valid settings one record more tells the number of statements. -/
theorem split_of_valid {settings : Settings} (h : settings.validate = .ok ()) (script : Text) :
    split settings script = (splitUnchecked settings script).andThen fun statements =>
      ⟨[.scriptSplit settings.resource settings.separator statements.length], .ok statements⟩ := by
  rw [split, h]
  rfl

theorem result_split_of_valid {settings : Settings} (h : settings.validate = .ok ())
    (script : Text) : (split settings script).result = (splitUnchecked settings script).result := by
  rw [split_of_valid h]
  cases hr : (splitUnchecked settings script).result <;> simp [Logged.andThen, hr]

/-- Splitting gives statements exactly when all openers are closed. -/
theorem splitUnchecked_ok_iff {settings : Settings} {script : Text} {out : List Text} :
    (splitUnchecked settings script).result = .ok out ↔
      (TokenStream.read settings 0 script).unclosed = none ∧
        (Assembly.empty.readAll (TokenStream.read settings 0 script).tokens).conclude.statements =
          out := by
  rw [splitUnchecked_eq]
  cases hu : (TokenStream.read settings 0 script).unclosed <;>
    simp [TokenStream.failure?, hu]

end SqlStatements
