import SqlStatements.Token.Cursor

namespace SqlStatements

namespace Text

/-- The part of a text between two byte offsets. There is none when a cut would fall
inside a character. -/
def slice? (t : Text) (start stop : Nat) : Option Text := do
  let before ← t.takeBytes? start
  let upTo ← t.takeBytes? stop
  return upTo.drop before.length

/-- Between two characters a cut gives back what stands before it. -/
theorem takeBytes?_append (s t : Text) : takeBytes? (s ++ t) s.byteSize = some s := by
  induction s with
  | nil => cases t <;> simp [takeBytes?]
  | cons c s ih =>
    have hc := c.utf8Size_pos
    have hz : c.utf8Size + byteSize s ≠ 0 := by omega
    rw [List.cons_append, takeBytes?, byteSize_cons, if_neg hz, if_pos (Nat.le_add_right _ _),
      Nat.add_sub_cancel_left, ih, Option.map_some]

/-- Two parts of a text that take the same number of bytes from its front are the same. -/
theorem append_inj {s s' t t' : Text} (h : s ++ t = s' ++ t') (hs : s.byteSize = s'.byteSize) :
    s = s' ∧ t = t' := by
  have htake := takeBytes?_append s t
  rw [h, hs, takeBytes?_append] at htake
  obtain rfl := Option.some.inj htake
  exact ⟨rfl, List.append_cancel_left h⟩

theorem slice?_append (s t u : Text) :
    slice? (s ++ t ++ u) s.byteSize (s.byteSize + t.byteSize) = some t := by
  have hs : takeBytes? (s ++ t ++ u) s.byteSize = some s := by
    rw [List.append_assoc]
    exact takeBytes?_append s (t ++ u)
  have ht : takeBytes? (s ++ t ++ u) (s.byteSize + t.byteSize) = some (s ++ t) := by
    simpa using takeBytes?_append (s ++ t) u
  rw [slice?, hs, ht]
  simp

end Text

/-- The tokens lie side by side from an offset on, and none of them is empty. -/
def Token.SideBySide : Nat → List Token → Prop
  | _, [] => True
  | start, t :: ts => t.start = start ∧ t.text ≠ [] ∧ SideBySide t.stop ts

/-- The tokens that a cursor reads one after the other before the end, and the cursor
behind them. -/
inductive Cursor.Reads : Cursor → List Token → Cursor → Prop where
  | nothing (c : Cursor) : Reads c [] c
  | token {c d e : Cursor} {t : Token} {ts : List Token} :
      c.nextToken = (.ok t, d) → t.isEof = false → Reads d ts e → Reads c (t :: ts) e

namespace Cursor

/-- The text of a token moves from what remains to what is consumed. -/
theorem nextToken_shape {c d : Cursor} {t : Token} (h : c.nextToken = (.ok t, d)) :
    t.start = c.offset ∧ c.remaining = t.text ++ d.remaining ∧
      d.consumed.text = c.consumed.text ++ t.text ∧ d.settings = c.settings := by
  unfold nextToken at h
  split at h
  · cases h
  · cases h
    simp [advance]

theorem stop_eq_offset {c d : Cursor} {t : Token} (h : c.nextToken = (.ok t, d)) :
    t.stop = d.offset := by
  obtain ⟨hs, _, hc, _⟩ := nextToken_shape h
  rw [Token.stop, hs, c.offset_eq, d.offset_eq, hc, Text.byteSize_append]

theorem remaining_ne_nil {c d : Cursor} {t : Token} (h : c.nextToken = (.ok t, d))
    (he : t.isEof = false) : c.remaining ≠ [] := by
  intro hr
  rw [nextToken_atEnd hr] at h
  cases h
  cases he

/-- A token that is not the empty one at the end has text. -/
theorem text_ne_nil {c d : Cursor} {t : Token} (h : c.nextToken = (.ok t, d))
    (he : t.isEof = false) : t.text ≠ [] := by
  intro hn
  have hlt := (nextToken_moves (remaining_ne_nil h he) h).1
  have hc := (nextToken_shape h).2.1
  rw [hc, hn] at hlt
  simp at hlt

/-- The empty token is read at the end only, and the cursor stays there. -/
theorem eof_shape {c d : Cursor} {t : Token} (h : c.nextToken = (.ok t, d))
    (he : t.isEof = true) : c.remaining = [] ∧ t = .eof c.offset ∧ d = c := by
  by_cases hr : c.remaining = []
  · rw [nextToken_atEnd hr] at h
    cases h
    exact ⟨hr, rfl, rfl⟩
  · have hf := (nextToken_moves hr h).2
    rw [he] at hf
    cases hf

/-- A failure leaves the cursor where it is. -/
theorem failure_stays {c d : Cursor} {e : Failure} (h : c.nextToken = (.error e, d)) : d = c := by
  unfold nextToken at h
  split at h
  · cases h
    rfl
  · cases h

namespace Reads

theorem shape {c d : Cursor} {ts : List Token} (h : Reads c ts d) :
    c.remaining = ts.flatMap Token.text ++ d.remaining ∧
      d.consumed.text = c.consumed.text ++ ts.flatMap Token.text ∧
      d.settings = c.settings := by
  induction h with
  | nothing c => simp
  | token hn _ _ ih =>
    obtain ⟨_, hr, hc, hs⟩ := nextToken_shape hn
    obtain ⟨ihr, ihc, ihs⟩ := ih
    exact ⟨by simp [hr, ihr], by simp [hc, ihc], ihs.trans hs⟩

theorem sideBySide {c d : Cursor} {ts : List Token} (h : Reads c ts d) :
    Token.SideBySide c.offset ts := by
  induction h with
  | nothing c => trivial
  | token hn he _ ih =>
    refine ⟨(nextToken_shape hn).1, text_ne_nil hn he, ?_⟩
    rw [stop_eq_offset hn]
    exact ih

/-- Every token is the part of the whole text between its two ends. -/
theorem slice {c d : Cursor} {ts : List Token} (h : Reads c ts d) :
    ∀ t ∈ ts, (c.consumed.text ++ c.remaining).slice? t.start t.stop = some t.text := by
  induction h with
  | nothing c => simp
  | @token c d e t ts hn _ _ ih =>
    obtain ⟨hs, hr, hc, _⟩ := nextToken_shape hn
    have hw : c.consumed.text ++ c.remaining = d.consumed.text ++ d.remaining := by
      rw [hc, hr, List.append_assoc]
    intro u hu
    rcases List.mem_cons.mp hu with he | hm
    · subst u
      rw [Token.stop, hs, c.offset_eq, hr, ← List.append_assoc]
      exact Text.slice?_append c.consumed.text t.text d.remaining
    · rw [hw]
      exact ih u hm

/-- Reading goes on until the end or until a failure. -/
theorem exists_last (c : Cursor) :
    ∃ ts d, Reads c ts d ∧ (d.nextToken = (.ok (.eof d.offset), d) ∨
      ∃ e, d.nextToken = (.error e, d)) := by
  generalize hn : c.remaining.length = n
  induction n using Nat.strongRecOn generalizing c with
  | ind n ih =>
    by_cases hr : c.remaining = []
    · exact ⟨[], c, .nothing c, .inl (nextToken_atEnd hr)⟩
    cases ht : c.nextToken with
    | mk read d =>
      cases read with
      | error e =>
        cases failure_stays ht
        exact ⟨[], c, .nothing c, .inr ⟨e, ht⟩⟩
      | ok t =>
        obtain ⟨hlt, hf⟩ := nextToken_moves hr ht
        obtain ⟨ts, e, hts, he⟩ := ih d.remaining.length (hn ▸ hlt) d rfl
        exact ⟨t :: ts, e, .token ht hf hts, he⟩

end Reads

/-- Reading loses nothing and repeats nothing. Reading always comes to the end or to a
failure, and wherever it stands, the tokens so far lie side by side from the first byte on,
are the parts of the script between their ends and make up the script up to the cursor.
The empty token comes where the script ends, and a failure does not move the cursor. -/
theorem reading_is_lossless (settings : Settings) (script : Text) :
    (∃ ts c, (start settings script).Reads ts c ∧
      (c.nextToken = (.ok (.eof c.offset), c) ∨ ∃ e, c.nextToken = (.error e, c))) ∧
    ∀ ts c, (start settings script).Reads ts c →
      Token.SideBySide 0 ts ∧
      (∀ t ∈ ts, t.stop = t.start + t.text.byteSize ∧
        script.slice? t.start t.stop = some t.text) ∧
      script.takeBytes? c.offset = some (ts.flatMap Token.text) ∧
      (∀ t d, c.nextToken = (.ok t, d) → t.isEof = true →
        ts.flatMap Token.text = script ∧ t.text = [] ∧
          t.start = script.byteSize ∧ t.stop = script.byteSize) ∧
      (∀ e d, c.nextToken = (.error e, d) → d = c) := by
  refine ⟨Reads.exists_last _, ?_⟩
  intro ts c h
  obtain ⟨hr, hc, _⟩ := h.shape
  have hwhole : script = ts.flatMap Token.text ++ c.remaining := hr
  have hread : c.consumed.text = ts.flatMap Token.text := by simpa [start] using hc
  refine ⟨h.sideBySide, ?_, ?_, ?_, fun e d he => failure_stays he⟩
  · intro t ht
    exact ⟨rfl, by simpa [start] using h.slice t ht⟩
  · rw [c.offset_eq, hread, hwhole]
    exact Text.takeBytes?_append _ _
  · intro t d ht he
    obtain ⟨hend, rfl, -⟩ := eof_shape ht he
    have hall : ts.flatMap Token.text = script := by rw [hwhole, hend, List.append_nil]
    have ho : c.offset = script.byteSize := by rw [c.offset_eq, hread, hall]
    exact ⟨hall, rfl, ho, by simp [Token.stop, Token.eof, ho]⟩

/-- A run that meets a comment without an end after two tokens of a two-byte letter and a
space. -/
theorem reading_is_lossless_before_open_comment :
    ∃ c, (start .standard ['é', ' ', '/', '*']).Reads
        [⟨.other, ['é'], 0⟩, ⟨.whitespace, [' '], 2⟩] c ∧
      Text.takeBytes? ['é', ' ', '/', '*'] c.offset = some ['é', ' '] := by
  refine ⟨_, .token rfl rfl (.token rfl rfl (.nothing _)), ?_⟩
  exact ((reading_is_lossless .standard ['é', ' ', '/', '*']).2 _ _
    (.token rfl rfl (.token rfl rfl (.nothing _)))).2.2.1

end Cursor
end SqlStatements
