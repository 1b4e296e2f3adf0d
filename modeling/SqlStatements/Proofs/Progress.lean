import SqlStatements.Proofs.Assembling
import SqlStatements.Proofs.Lossless

namespace SqlStatements.Cursor

/-- A split from a cursor and an assembly on that comes to its end: the answers to its calls for
a token, one after the other, and what it comes to. -/
inductive Splits :
    Cursor → Assembly → List (Except Failure Token) → Logged Failure (List Text) → Prop where
  | finished {c : Cursor} {a : Assembly} :
      a.mode = .finished → Splits c a [] ⟨a.events, .ok a.statements⟩
  | failed {c d : Cursor} {a : Assembly} {e : Failure} :
      a.mode ≠ .finished → c.nextToken = (.error e, d) → Splits c a [.error e] ⟨a.events, .error e⟩
  | goesOn {c d : Cursor} {a : Assembly} {t : Token} {answers : List (Except Failure Token)}
      {out : Logged Failure (List Text)} :
      a.mode ≠ .finished → c.nextToken = (.ok t, d) → Splits d (a.read t) answers out →
      Splits c a (.ok t :: answers) out

def answersEnd : Except Failure Token → Bool
  | .ok t => t.isEof
  | .error _ => false

@[simp] theorem answersEnd_ok (t : Token) : answersEnd (.ok t) = t.isEof := rfl

/-- How often a split can still be told that the script has ended: before the end as often as any
assembly can wait for it. -/
def endsAhead (c : Cursor) (a : Assembly) : Nat := if c.remaining = [] then a.mode.endReads else 3

theorem remaining_ne_nil_of_error {c d : Cursor} {e : Failure}
    (h : c.nextToken = (.error e, d)) : c.remaining ≠ [] := by
  intro hr
  rw [nextToken_atEnd hr] at h
  cases h

theorem endsAhead_le (c : Cursor) (a : Assembly) : c.endsAhead a ≤ 3 := by
  unfold endsAhead
  split
  · exact a.mode.endReads_le
  · exact Nat.le_refl 3

/-- Before the end a token moves the cursor over its own text, which is not empty. -/
theorem nextToken_advances {c d : Cursor} {t : Token} (hr : c.remaining ≠ [])
    (h : c.nextToken = (.ok t, d)) :
    t.text ≠ [] ∧ c.remaining = t.text ++ d.remaining ∧ d.offset = c.offset + t.text.byteSize := by
  obtain ⟨hstart, hremaining, -, -⟩ := nextToken_shape h
  refine ⟨text_ne_nil h (nextToken_moves hr h).2, hremaining, ?_⟩
  rw [← stop_eq_offset h, Token.stop, hstart]

theorem exists_splits (c : Cursor) (a : Assembly) :
    ∃ answers, c.Splits a answers (c.assemble a) := by
  induction c, a using assemble.induct with
  | case1 c a hf =>
    rw [assemble_finished hf]
    exact ⟨[], .finished hf⟩
  | case2 c a hf e d h =>
    rw [assemble_of_error hf h]
    exact ⟨[.error e], .failed hf h⟩
  | case3 c a hf t d h ih =>
    obtain ⟨answers, hanswers⟩ := ih
    rw [assemble_of_ok hf h]
    exact ⟨.ok t :: answers, .goesOn hf h hanswers⟩

namespace Splits
variable {c : Cursor} {a : Assembly} {answers : List (Except Failure Token)}
  {out : Logged Failure (List Text)}

/-- The end is answered once for each reading of it that the assembly waits for, at most. -/
theorem countP_le (h : c.Splits a answers out) : answers.countP answersEnd ≤ c.endsAhead a := by
  induction h with
  | finished _ => exact Nat.zero_le _
  | failed _ _ => exact Nat.zero_le _
  | @goesOn c d a t answers out hf ht _ ih =>
    by_cases he : t.isEof = true
    · obtain ⟨hr, rfl, rfl⟩ := eof_shape ht he
      have hlt := Assembly.endReads_read_lt hf he
      rw [List.countP_cons, answersEnd_ok, if_pos he]
      rw [endsAhead, if_pos hr] at ih ⊢
      omega
    · have hr := remaining_ne_nil ht (by simpa using he)
      rw [List.countP_cons, answersEnd_ok, if_neg he, endsAhead, if_neg hr]
      exact Nat.le_trans ih (d.endsAhead_le _)

/-- Each call takes a character or is answered by the end. A failure leaves the character it was
met at. -/
theorem length_le (h : c.Splits a answers out) :
    answers.length ≤ c.remaining.length + answers.countP answersEnd := by
  induction h with
  | finished _ => exact Nat.zero_le _
  | @failed c d a e _ ht =>
    have hpos := List.length_pos_iff.mpr (remaining_ne_nil_of_error ht)
    rw [List.length_singleton]
    omega
  | @goesOn c d a t answers out _ ht _ ih =>
    by_cases he : t.isEof = true
    · obtain ⟨-, -, rfl⟩ := eof_shape ht he
      rw [List.countP_cons, answersEnd_ok, if_pos he, List.length_cons]
      omega
    · have hlt := (nextToken_moves (remaining_ne_nil ht (by simpa using he)) ht).1
      rw [List.countP_cons, answersEnd_ok, if_neg he, List.length_cons]
      omega

end Splits

/-- Whatever the delimiters are, empty ones included, a token that is read before the end takes at
least one character, and splitting comes to its end. It calls for a token at most three times more
often than there are characters, and at most three of its calls find the script at its end: one of
an `END` that waits for its separator, one of the blocks that are still open, and one of the
script. -/
theorem splitting_ends (settings : Settings) (script : Text) :
    (∀ (c d : Cursor) (t : Token), c.remaining ≠ [] → c.nextToken = (.ok t, d) →
      t.text ≠ [] ∧ c.remaining = t.text ++ d.remaining ∧
        d.offset = c.offset + t.text.byteSize) ∧
    (∃ answers, (start settings script).Splits .empty answers (splitUnchecked settings script)) ∧
    ∀ answers out, (start settings script).Splits .empty answers out →
      answers.length ≤ script.length + 3 ∧ answers.countP answersEnd ≤ 3 := by
  refine ⟨fun _ _ _ hr h => nextToken_advances hr h, exists_splits _ _, ?_⟩
  intro answers out h
  have hends := Nat.le_trans h.countP_le (endsAhead_le _ _)
  have hlength : answers.length ≤ script.length + answers.countP answersEnd := h.length_le
  exact ⟨by omega, hends⟩

/-- With an `END` that waits in a block within another one the end is answered three times. -/
theorem splitting_ends_with_three_ends :
    ∃ answers out, (start .standard "BEGIN BEGIN END".toList).Splits .empty answers out ∧
      answers.countP answersEnd = 3 ∧ answers.length = 8 ∧ answers.length ≤ 15 + 3 := by
  have h : (start .standard "BEGIN BEGIN END".toList).Splits .empty _ _ :=
    .goesOn (by decide) rfl (.goesOn (by decide) rfl (.goesOn (by decide) rfl
      (.goesOn (by decide) rfl (.goesOn (by decide) rfl (.goesOn (by decide) rfl
        (.goesOn (by decide) rfl (.goesOn (by decide) rfl (.finished rfl))))))))
  exact ⟨_, _, h, by decide +kernel, rfl, ((splitting_ends _ _).2.2 _ _ h).1⟩

end SqlStatements.Cursor
