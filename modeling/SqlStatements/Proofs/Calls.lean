import Mathlib.Data.List.Infix
import SqlStatements.Proofs.Cutting
import SqlStatements.Proofs.Openers
import SqlStatements.Proofs.Resuming

namespace SqlStatements

namespace Cursor

inductive Call where
  | nextToken
  | next
  | offset
  | atEnd
deriving DecidableEq

inductive Answer where
  | token (read : Except Failure Token)
  | item (read : Option (Except Failure Token))
  | offset (bytes : Nat)
  | atEnd (ended : Bool)
deriving DecidableEq

namespace Answer

def read? : Answer → Option (Except Failure Token)
  | .token read => some read
  | .item read => read
  | .offset _ => none
  | .atEnd _ => none

def token? (a : Answer) : Option Token := a.read?.bind Except.toOption

def isFailedItem : Answer → Bool
  | .item (some (.error _)) => true
  | _ => false

/-- The tokens of the answers, the empty ones at the end included. -/
def tokens (answers : List Answer) : List Token := answers.filterMap token?

variable {a : Answer} {answers : List Answer}

theorem tokens_cons_of_nothing (h : a.read? = none) : tokens (a :: answers) = tokens answers := by
  simp [tokens, token?, h]

theorem tokens_cons_of_token {t : Token} (h : a.read? = some (.ok t)) :
    tokens (a :: answers) = t :: tokens answers := by
  simp [tokens, token?, h, Except.toOption]

theorem not_isFailedItem (h : ∀ e, a.read? ≠ some (.error e)) :
    ¬ a.isFailedItem = true := by
  unfold isFailedItem
  split
  · exact absurd rfl (h _)
  · simp

end Answer

def call (c : Cursor) : Call → Answer × Cursor
  | .nextToken => (.token c.nextToken.1, c.nextToken.2)
  | .next => (.item c.next.1, c.next.2)
  | .offset => (.offset c.offset, c)
  | .atEnd => (.atEnd c.atEnd, c)

def callAll (c : Cursor) : List Call → List Answer × Cursor
  | [] => ([], c)
  | call :: calls =>
    let (answer, d) := c.call call
    let (answers, e) := d.callAll calls
    (answer :: answers, e)

/-- All that a call can do. Only a failure that the iteration reports is remembered. -/
inductive Responds (c : Cursor) : Answer → Cursor → Prop where
  | nothing {a : Answer} : a.read? = none → Responds c a c
  | token {a : Answer} {t : Token} {d : Cursor} :
      c.nextToken = (.ok t, d) → a.read? = some (.ok t) → Responds c a d
  | failure {e : Failure} : c.nextToken = (.error e, c) → Responds c (.token (.error e)) c
  | failedItem {e : Failure} : c.stopped = false → c.nextToken = (.error e, c) →
      Responds c (.item (some (.error e))) { c with stopped := true }

inductive RespondsAll : Cursor → List Answer → Cursor → Prop where
  | nothing (c : Cursor) : RespondsAll c [] c
  | call {c d e : Cursor} {a : Answer} {answers : List Answer} :
      Responds c a d → RespondsAll d answers e → RespondsAll c (a :: answers) e

theorem responds_nextToken (c : Cursor) : c.Responds (.token c.nextToken.1) c.nextToken.2 := by
  obtain ⟨read, d, h⟩ : ∃ read d, c.nextToken = (read, d) := ⟨_, _, rfl⟩
  rw [h]
  cases read with
  | error e =>
    obtain rfl := failure_stays h
    exact .failure h
  | ok t => exact .token h rfl

theorem responds_next (c : Cursor) : c.Responds (.item c.next.1) c.next.2 := by
  unfold next
  split
  · exact .nothing rfl
  rename_i hs
  split
  · rename_i h
    obtain rfl := failure_stays h
    exact .failedItem (by simpa using hs) h
  · rename_i t d h
    split
    · rename_i he
      obtain rfl := (eof_shape h he).2.2
      exact .nothing rfl
    · exact .token h rfl

theorem responds_call (c : Cursor) (call : Call) :
    c.Responds (c.call call).1 (c.call call).2 := by
  cases call with
  | nextToken => exact c.responds_nextToken
  | next => exact c.responds_next
  | offset => exact .nothing rfl
  | atEnd => exact .nothing rfl

theorem respondsAll_callAll (c : Cursor) (calls : List Call) :
    c.RespondsAll (c.callAll calls).1 (c.callAll calls).2 := by
  induction calls generalizing c with
  | nil => exact .nothing c
  | cons call calls ih => exact .call (c.responds_call call) (ih _)

/-- What is read does not depend on whether the iteration is over. -/
theorem nextToken_stopped {c d : Cursor} {read : Except Failure Token}
    (h : c.nextToken = (read, d)) (stopped : Bool) :
    { c with stopped := stopped }.nextToken = (read, { d with stopped := stopped }) := by
  unfold nextToken at h ⊢
  cases hc : Token.classify c.settings c.remaining <;> simp only [hc] at h ⊢ <;> cases h <;> rfl

theorem stopped_of_nextToken {c d : Cursor} {read : Except Failure Token}
    (h : c.nextToken = (read, d)) : d.stopped = c.stopped := by
  unfold nextToken at h
  split at h <;> cases h <;> rfl

theorem Reads.stopped {c d : Cursor} {ts : List Token} (h : c.Reads ts d) (stopped : Bool) :
    Reads { c with stopped := stopped } ts { d with stopped := stopped } := by
  induction h with
  | nothing c => exact .nothing _
  | token ht he _ ih => exact .token (nextToken_stopped ht stopped) he ih

namespace RespondsAll
variable {c d : Cursor} {answers : List Answer}

/-- Whichever calls report them, the tokens are those read one after the other. -/
theorem reads (h : c.RespondsAll answers d) :
    c.Reads ((Answer.tokens answers).filter fun t => !t.isEof) { d with stopped := c.stopped } := by
  induction h with
  | nothing c => exact .nothing c
  | @call c d e a answers hcall _ ih =>
    cases hcall with
    | nothing ha =>
      rw [Answer.tokens_cons_of_nothing ha]
      exact ih
    | @token _ t _ ht ha =>
      rw [stopped_of_nextToken ht] at ih
      rw [Answer.tokens_cons_of_token ha]
      by_cases he : t.isEof = true
      · obtain ⟨-, -, rfl⟩ := eof_shape ht he
        rw [List.filter_cons_of_neg (by simp [he])]
        exact ih
      · rw [List.filter_cons_of_pos (by simp [he])]
        exact .token ht (by simpa using he) ih
    | failure => exact ih
    | failedItem => exact ih.stopped c.stopped

/-- The cursor stands behind the last token that any call has reported. -/
theorem offset (h : c.RespondsAll answers d) :
    d.offset = ((Answer.tokens answers).getLast?.map Token.stop).getD c.offset := by
  induction h with
  | nothing c => rfl
  | @call c d e a answers hcall _ ih =>
    cases hcall with
    | nothing ha =>
      rw [Answer.tokens_cons_of_nothing ha]
      exact ih
    | @token _ t _ ht ha =>
      rw [Answer.tokens_cons_of_token ha, List.getLast?_cons, ih, ← stop_eq_offset ht]
      cases (Answer.tokens answers).getLast? <;> rfl
    | failure => exact ih
    | failedItem => exact ih

theorem offset_le (h : c.RespondsAll answers d) : c.offset ≤ d.offset := by
  obtain ⟨-, hconsumed, -⟩ := h.reads.shape
  rw [c.offset_eq, d.offset_eq, hconsumed, Text.byteSize_append]
  exact Nat.le_add_right _ _

/-- The iteration is over once it has reported a failure, and it is over for nothing else. -/
theorem failedItems (h : c.RespondsAll answers d) :
    c.stopped.toNat + answers.countP Answer.isFailedItem = d.stopped.toNat := by
  induction h with
  | nothing c => rfl
  | @call c d e a answers hcall _ ih =>
    have hskip (ha : ∀ e, a.read? ≠ some (.error e)) (hs : d.stopped = c.stopped) :
        c.stopped.toNat + (a :: answers).countP Answer.isFailedItem = e.stopped.toNat := by
      rw [List.countP_cons_of_neg (Answer.not_isFailedItem ha), ← hs, ih]
    cases hcall with
    | nothing ha => exact hskip (by simp [ha]) rfl
    | token ht ha => exact hskip (by simp [ha]) (stopped_of_nextToken ht)
    | failure => exact ih
    | failedItem hs _ =>
      rw [List.countP_cons_of_pos rfl, ← ih, hs]
      simp only [Bool.toNat_false, Bool.toNat_true]
      omega

/-- Once reading fails every later call reports the same failure or nothing. -/
theorem repeats {e : Failure} (h : c.RespondsAll answers d) (he : c.nextToken = (.error e, c)) :
    ∀ a ∈ answers, ∀ read ∈ a.read?, read = .error e := by
  induction h with
  | nothing c => simp
  | @call c d _ a answers hcall _ ih =>
    rw [List.forall_mem_cons]
    cases hcall with
    | nothing ha => exact ⟨by simp [ha], ih he⟩
    | token ht _ =>
      rw [he] at ht
      cases ht
    | failure ht =>
      rw [he] at ht
      cases ht
      exact ⟨by simp [Answer.read?], ih he⟩
    | failedItem _ ht =>
      have hlater := ih (nextToken_stopped he true)
      rw [he] at ht
      cases ht
      exact ⟨by simp [Answer.read?], hlater⟩

/-- An iteration that is over yields nothing. -/
theorem items_eq_none {e : Failure} (h : c.RespondsAll answers d)
    (he : c.nextToken = (.error e, c)) (hs : c.stopped = true) :
    ∀ read, .item read ∈ answers → read = none := by
  intro read hread
  cases hr : read with
  | none => rfl
  | some result =>
    subst hr
    obtain rfl := h.repeats he _ hread result rfl
    have hcount := h.failedItems
    have hpos : 0 < answers.countP Answer.isFailedItem :=
      List.countP_pos_iff.mpr ⟨_, hread, rfl⟩
    have hle := d.stopped.toNat_le
    rw [hs, Bool.toNat_true] at hcount
    omega

end RespondsAll

/-- A call that reports a failure does not move, and the failure is met again. -/
theorem Responds.failing {c d : Cursor} {a : Answer} {e : Failure} (h : c.Responds a d)
    (he : a.read? = some (.error e)) :
    d.nextToken = (.error e, d) ∧ d.offset = c.offset ∧
      (a.isFailedItem = true → d.stopped = true) := by
  cases h with
  | nothing ha =>
    rw [ha] at he
    cases he
  | token _ ha =>
    rw [ha] at he
    cases he
  | failure ht =>
    cases he
    exact ⟨ht, rfl, fun h => absurd h (by simp [Answer.isFailedItem])⟩
  | failedItem _ ht =>
    cases he
    exact ⟨nextToken_stopped ht true, rfl, fun _ => rfl⟩

/-- At the end the iteration yields nothing. -/
theorem next_atEnd {c : Cursor} (h : c.remaining = []) : c.next = (none, c) := by
  unfold next
  rw [nextToken_atEnd h]
  split <;> rfl

end Cursor

namespace TokenStream

/-- The tokens of a stream spell the front of its text. -/
theorem text_front (s : Settings) (start : Nat) (w : Text) : (read s start w).text <+: w := by
  obtain ⟨r, hfront, -⟩ := Token.Front.of_read (List.append_nil (read s start w).tokens).symm
  exact ⟨r, hfront.spells.symm⟩

theorem text_eq_of_content {stream other : TokenStream}
    (h : stream.tokens.map Token.content = other.tokens.map Token.content) :
    stream.text = other.text := by
  have hcontent (ts : List Token) :
      ts.flatMap Token.text = (ts.map Token.content).flatMap Prod.snd := by
    rw [List.flatMap_map]
    rfl
  rw [text, text, hcontent, hcontent, h]

end TokenStream

namespace Cursor

/-- What a cursor has consumed matters for the places in failures, and for nothing else in what
it splits. -/
theorem result_split (c : Cursor) :
    (∀ out, (splitUnchecked c.settings c.remaining).result = .ok out →
      c.split.result = .ok out) ∧
    ∀ e, (splitUnchecked c.settings c.remaining).result = .error e →
      ∃ before why, before <+: c.remaining ∧ e = .unclosed c.settings (.after before) why ∧
        c.split.result =
          .error (.unclosed c.settings (.after (c.consumed.text ++ before)) why) := by
  obtain ⟨hcontent, hunclosed⟩ :=
    TokenStream.content_read c.settings c.remaining c.offset 0
  have hstatements := (((Assembly.Alike.refl .empty).readAll hcontent).conclude).statements
  have htext := TokenStream.text_eq_of_content hcontent
  rw [split, assemble_eq c .empty (by simp [Assembly.empty]), splitUnchecked_eq]
  unfold TokenStream.failure?
  rw [hunclosed, htext]
  cases (TokenStream.read c.settings 0 c.remaining).unclosed with
  | none => simp [hstatements]
  | some why =>
    simp only [Option.map_some, List.nil_append, reduceCtorEq, Except.error.injEq, false_implies,
      implies_true, true_and]
    rintro e rfl
    exact ⟨_, why, TokenStream.text_front _ _ _, rfl, rfl⟩

/-- A cursor stands at the end exactly if it has gone through all bytes of the script. -/
theorem atEnd_iff {c : Cursor} {script : Text} (h : script = c.consumed.text ++ c.remaining) :
    c.atEnd = true ↔ c.offset = script.byteSize := by
  rw [h, c.offset_eq, Text.byteSize_append, atEnd]
  cases c.remaining with
  | nil => simp
  | cons d rest =>
    have hd := d.utf8Size_pos
    simp only [List.isEmpty_cons, Bool.false_eq_true, false_iff, Text.byteSize_cons]
    omega

/-- The laws of a cursor hold in whatever order its calls come. The tokens that the two ways of
reading report together are the first ones of the script, and the cursor stands behind the last
of them and never goes back. A failure does not move it and comes again with every later reading,
but the iteration reports it once and yields nothing from then on. At the end nothing moves
either. What is split from the cursor on are the statements of the text behind it, or its failure
with the place in the whole script. -/
theorem calls_in_any_order {settings : Settings} {script : Text} {calls : List Call}
    {answers : List Answer} {c : Cursor}
    (h : (start settings script).callAll calls = (answers, c)) :
    ((Answer.tokens answers).filter fun t => !t.isEof) <+:
        (TokenStream.read settings 0 script).tokens ∧
      c.offset = ((Answer.tokens answers).getLast?.map Token.stop).getD 0 ∧
      (∀ later, c.offset ≤ (c.callAll later).2.offset) ∧
      (∀ call a d e, c.call call = (a, d) → a.read? = some (.error e) →
        d.offset = c.offset ∧
          ∀ later, (∀ b ∈ (d.callAll later).1, ∀ read ∈ b.read?, read = .error e) ∧
            (a.isFailedItem = true → ∀ read, .item read ∈ (d.callAll later).1 → read = none)) ∧
      answers.countP Answer.isFailedItem ≤ 1 ∧
      (c.atEnd = true ↔ c.offset = script.byteSize) ∧
      (c.atEnd = true →
        c.nextToken = (.ok (.eof script.byteSize), c) ∧ c.next = (none, c)) ∧
      ∃ before rest, script = before ++ rest ∧ before.byteSize = c.offset ∧
        (∀ out, (splitUnchecked settings rest).result = .ok out → c.split.result = .ok out) ∧
        ∀ e, (splitUnchecked settings rest).result = .error e →
          ∃ front why, front <+: rest ∧ e = .unclosed settings (.after front) why ∧
            c.split.result = .error (.unclosed settings (.after (before ++ front)) why) := by
  have hall : (start settings script).RespondsAll answers c := by
    have := respondsAll_callAll (start settings script) calls
    rwa [h] at this
  have hscript : script = c.consumed.text ++ c.remaining := hall.reads.script_eq
  obtain rfl : c.settings = settings := hall.reads.shape.2.2
  refine ⟨?_, hall.offset, ?_, ?_, ?_, atEnd_iff hscript, ?_, ?_⟩
  · have hstream := congrArg TokenStream.tokens hall.reads.stream
    exact ⟨_, hstream.symm⟩
  · intro later
    exact (c.respondsAll_callAll later).offset_le
  · intro call a d e hcall he
    have hresponds := c.responds_call call
    rw [hcall] at hresponds
    obtain ⟨hfail, hoffset, hstopped⟩ := hresponds.failing he
    refine ⟨hoffset, ?_⟩
    intro later
    have hlater := d.respondsAll_callAll later
    exact ⟨hlater.repeats hfail, fun ha => hlater.items_eq_none hfail (hstopped ha)⟩
  · have hcount := hall.failedItems
    have hle := c.stopped.toNat_le
    omega
  · intro hend
    have hoffset := (atEnd_iff hscript).mp hend
    have hremaining : c.remaining = [] := List.isEmpty_iff.mp hend
    rw [← hoffset]
    exact ⟨nextToken_atEnd hremaining, next_atEnd hremaining⟩
  · exact ⟨_, _, hscript, c.offset_eq.symm, c.result_split⟩

/-- The two ways of reading take turns up to a comment without an end. Each of them reports the
failure, and the iteration does so once. Splitting from there on reports it too, and not as that of
the text behind the cursor. -/
theorem calls_in_any_order_before_open_comment :
    let run := (start .standard "é;/*".toList).callAll
      [.nextToken, .offset, .next, .nextToken, .next, .nextToken, .next, .atEnd]
    let failure (column : Nat) : Failure :=
      .parse Settings.inlineResource (.unclosedComment ['*', '/'] ⟨1, column⟩)
    run.1 = [.token (.ok ⟨.other, ['é'], 0⟩), .offset 2, .item (some (.ok ⟨.separator, [';'], 2⟩)),
        .token (.error (failure 3)), .item (some (.error (failure 3))),
        .token (.error (failure 3)), .item none, .atEnd false] ∧
      run.1.countP Answer.isFailedItem ≤ 1 ∧
      (∀ later, run.2.offset ≤ (run.2.callAll later).2.offset) ∧
      (splitUnchecked .standard "/*".toList).result = .error (failure 1) ∧
      run.2.split.result = .error (failure 3) := by
  intro run failure
  have hrun : (start .standard "é;/*".toList).callAll
      [.nextToken, .offset, .next, .nextToken, .next, .nextToken, .next, .atEnd] =
    (run.1, run.2) := rfl
  obtain ⟨-, -, hoffset, -, hcount, -, -, before, rest, hscript, hsize, -, hfailing⟩ :=
    calls_in_any_order hrun
  have hbehind : run.2.offset = Text.byteSize ['é', ';'] := by decide +kernel
  obtain ⟨rfl, rfl⟩ : before = ['é', ';'] ∧ rest = ['/', '*'] :=
    Text.append_inj hscript.symm (hsize.trans hbehind)
  have hrest : (splitUnchecked .standard ['/', '*']).result = .error (failure 1) := by
    decide +kernel
  obtain ⟨front, why, hprefix, hplace, hsplit⟩ := hfailing _ hrest
  refine ⟨by decide +kernel, hcount, hoffset, hrest, ?_⟩
  cases why with
  | dollarQuote tag => cases hplace
  | blockComment =>
    have hfront : front ∈ List.inits ['/', '*'] := (List.mem_inits _ _).mpr hprefix
    simp only [List.inits, List.map_cons, List.map_nil, List.mem_cons, List.not_mem_nil,
      or_false] at hfront
    rcases hfront with rfl | rfl | rfl
    · exact hsplit
    · cases hplace
    · cases hplace

end Cursor
end SqlStatements
