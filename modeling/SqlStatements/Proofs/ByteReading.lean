import SqlStatements.Proofs.ByteLexemes
import SqlStatements.Proofs.Calls
import SqlStatements.Proofs.Recursion

namespace SqlStatements

namespace Bytes

def lastLineFeed? (bytes : Bytes) : Option Nat :=
  (bytes.reverse.findIdx? (ascii (· == '\n'))).map fun behind => bytes.length - 1 - behind

def lineStart (bytes : Bytes) : Nat :=
  match lastLineFeed? bytes with
  | some n => n + 1
  | none => 0

/-- The place of an offset, which counts as the end when it lies beyond it. -/
def lineColumn? (script : Bytes) (offset : Nat) : Option Position := do
  let before ← sliceTo? script (min offset script.length)
  let line ← sliceFrom? before (lineStart before)
  return ⟨before.countP (ascii (· == '\n')) + 1, line.countP (fun b => !isContinuation b) + 1⟩

def unclosed? (s : Settings) (script : Bytes) (offset : Nat) (why : Lexeme.Unclosed) :
    Option Failure :=
  (lineColumn? script offset).map fun place => .unclosed s place why

def classify? (s : Settings) (script : Bytes) (offset : Nat) :
    Option (Except Failure (Token.Kind × Nat)) := do
  let rest ← sliceFrom? script offset
  match literal? s.separator.utf8 rest with
  | some n => return .ok (.separator, n)
  | none =>
  match ← lineComment? s.lineComment.utf8 rest with
  | some n => return .ok (.comment, n)
  | none =>
  match ← blockComment? s.blockOpen.utf8 s.blockClose.utf8 rest with
  | .error why => return .error (← unclosed? s script offset why)
  | .ok (some n) => return .ok (.comment, n)
  | .ok none =>
  match quotedString? rest with
  | some n => return .ok (.quotedString, n)
  | none =>
  match ← dollarQuote? rest with
  | .error why => return .error (← unclosed? s script offset why)
  | .ok (some n) => return .ok (.quotedString, n)
  | .ok none =>
  match identifier? rest with
  | some n => return .ok (.identifier, n)
  | none =>
  match blanks? rest with
  | some n => return .ok (.whitespace, n)
  | none => return .ok (.other, (character? rest).getD rest.length)

/-- Reads the token at an offset. The result has its kind, its bytes and its start, and the
offset behind it. -/
def nextToken? (s : Settings) (script : Bytes) (offset : Nat) :
    Option (Except Failure (Token.Kind × Bytes × Nat) × Nat) :=
  if script.length ≤ offset then some (.ok (.eof, [], script.length), offset)
  else do
    match ← classify? s script offset with
    | .error e => return (.error e, offset)
    | .ok (kind, n) =>
      let bytes ← slice? script offset (offset + n)
      return (.ok (kind, bytes, offset), offset + n)

/-- A matcher takes so many bytes from the front of a text. -/
inductive Takes (s : Settings) (rest : Bytes) (n : Nat) : Prop where
  | separator : literal? s.separator.utf8 rest = some n → Takes s rest n
  | lineComment : lineComment? s.lineComment.utf8 rest = some (some n) → Takes s rest n
  | blockComment :
      blockComment? s.blockOpen.utf8 s.blockClose.utf8 rest = some (.ok (some n)) → Takes s rest n
  | quotedString {quote : UInt8} :
      quote ∈ quotes → Lexeme.quoted? 0x5C quote rest = some n → Takes s rest n
  | dollarQuote : dollarQuote? rest = some (.ok (some n)) → Takes s rest n
  | identifier : identifier? rest = some n → Takes s rest n
  | blanks : blanks? rest = some n → Takes s rest n
  | character : character? rest = some n → Takes s rest n

/-- A text is cut behind its last line feed, if it has one. -/
theorem exists_lastLine (t : Text) :
    ∃ front line : Text, t = front ++ line ∧ (∀ c ∈ line, (c == '\n') = false) ∧
      (front = [] ∨ ∃ before, front = before ++ ['\n']) := by
  induction t using List.reverseRecOn with
  | nil => exact ⟨[], [], rfl, by simp, .inl rfl⟩
  | append_singleton t c ih =>
    by_cases hc : c = '\n'
    · subst hc
      exact ⟨t ++ ['\n'], [], by simp, by simp, .inr ⟨t, rfl⟩⟩
    · obtain ⟨front, line, rfl, hline, hfront⟩ := ih
      refine ⟨front, line ++ [c], by simp, ?_, hfront⟩
      intro d hd
      rcases List.mem_append.mp hd with hd | hd
      · exact hline d hd
      · rw [List.mem_singleton.mp hd]
        exact beq_eq_false_iff_ne.mpr hc

section Places
variable {front line : Text} (hline : ∀ c ∈ line, (c == '\n') = false)
  (hfront : front = [] ∨ ∃ before, front = before ++ ['\n'])
include hline hfront

theorem column_after : (Position.after (front ++ line)).column = line.length + 1 := by
  have hpos : ∀ c ∈ line.reverse, (c != '\n') = true := by
    intro c hc
    simp [bne, hline c (List.mem_reverse.mp hc)]
  have hstop : front.reverse.takeWhile (· != '\n') = [] := by
    rcases hfront with rfl | ⟨before, rfl⟩ <;> simp
  simp only [Position.after]
  rw [List.reverse_append, List.takeWhile_append_of_pos hpos, hstop, List.append_nil,
    List.length_reverse]

theorem lineStart_utf8 : lineStart (Text.utf8 (front ++ line)) = front.byteSize := by
  have hnone : line.utf8.reverse.findIdx? (ascii (· == '\n')) = none := by
    rw [List.findIdx?_eq_none_iff]
    intro b hb
    exact ascii_utf8_of_not hline b (List.mem_reverse.mp hb)
  rw [lineStart, lastLineFeed?, Text.utf8_append, List.reverse_append, List.findIdx?_append, hnone]
  rcases hfront with rfl | ⟨before, rfl⟩
  · rfl
  · have hfeed : (Text.utf8 (before ++ ['\n'])).reverse = 0x0A :: (Text.utf8 before).reverse := by
      rw [Text.utf8_append, List.reverse_append]
      rfl
    have hsome : ((0x0A : UInt8) :: (Text.utf8 before).reverse).findIdx? (ascii (· == '\n')) =
        some 0 := rfl
    rw [hfeed, hsome]
    have hone : Text.byteSize ['\n'] = 1 := rfl
    simp only [Option.none_or, Option.map_some, List.length_append, List.length_reverse,
      Text.length_utf8, Text.byteSize_append, hone]
    show before.byteSize + 1 + line.byteSize - 1 - (0 + line.byteSize) + 1 = before.byteSize + 1
    omega

end Places

/-- The place of an offset is counted alike in bytes and in characters, and there is none exactly
inside a character. -/
theorem lineColumn?_utf8 (script : Text) (offset : Nat) :
    lineColumn? script.utf8 offset = Position.at? script offset := by
  rw [lineColumn?, Position.at?, sliceTo?_min]
  cases script.takeBytes? offset with
  | none => rfl
  | some before =>
    obtain ⟨front, line, rfl, hline, hfront⟩ := exists_lastLine before
    simp only [Option.map_some, Option.bind_eq_bind, Option.bind_some,
      lineStart_utf8 hline hfront]
    rw [Text.utf8_append, sliceFrom?_utf8, ← Text.utf8_append]
    have hfeed : OfAscii (· == '\n') := by
      intro c hc
      rw [beq_iff_eq.mp hc]
      decide
    have hcolumn := column_after hline hfront
    simp only [Option.bind_some, countP_utf8 hfeed, countP_first_utf8, ← hcolumn]
    rfl

section Reading
variable {s : Settings} {before rest : Text}

theorem lineColumn?_front :
    lineColumn? (before.utf8 ++ rest.utf8) before.byteSize = some (.after before) := by
  rw [← Text.utf8_append, lineColumn?_utf8, Position.at?, Text.takeBytes?_append]
  rfl

/-- Before the end of a text its bytes are classified as its characters are, without a cut inside
a character. -/
theorem classify?_utf8 (hne : rest ≠ []) :
    classify? s (before.utf8 ++ rest.utf8) before.byteSize =
      some (match Token.classify s rest with
        | .error why => .error (.unclosed s (.after before) why)
        | .ok (kind, n) => .ok (kind, rest.byteOffset n)) := by
  unfold classify? Token.classify
  simp only [sliceFrom?_utf8, Option.bind_eq_bind, Option.bind_some, literal?_utf8,
    lineComment?_utf8, blockComment?_utf8, quotedString?_utf8, dollarQuote?_utf8, identifier?_utf8,
    blanks?_utf8, character?_utf8, unclosed?, lineColumn?_front]
  cases Lexeme.literal? s.separator rest with
  | some n => rfl
  | none =>
  cases Lexeme.lineComment? s.lineComment rest with
  | some n => rfl
  | none =>
  rcases Lexeme.blockComment? s.blockOpen s.blockClose rest with why | _ | n
  · rfl
  · cases Lexeme.quotedString? rest with
    | some n => rfl
    | none =>
    rcases Lexeme.dollarQuote? rest with why | _ | n
    · rfl
    · cases Lexeme.identifier? rest with
      | some n => rfl
      | none =>
      cases Lexeme.blanks? rest with
      | some n => rfl
      | none =>
      obtain ⟨c, rest, rfl⟩ := List.exists_cons_of_ne_nil hne
      rfl
    · rfl
  · rfl

end Reading

/-- Every matcher takes whole characters. -/
theorem Takes.isBoundary {s : Settings} {rest : Text} {n : Nat} (h : Takes s rest.utf8 n) :
    isBoundary rest.utf8 n = true := by
  have hfound {found : Option Nat} (h : found.map rest.byteOffset = some n) :
      Bytes.isBoundary rest.utf8 n = true := by
    obtain ⟨m, -, rfl⟩ := Option.map_eq_some_iff.mp h
    exact isBoundary_byteOffset rest m
  have hclosed {found : Except Lexeme.Unclosed (Option Nat)}
      (h : some (found.map (Option.map rest.byteOffset)) = some (.ok (some n))) :
      Bytes.isBoundary rest.utf8 n = true := by
    cases found with
    | error why => cases h
    | ok found => exact hfound (Except.ok.inj (Option.some.inj h))
  cases h with
  | separator h => exact hfound (by rwa [literal?_utf8] at h)
  | lineComment h => exact hfound (Option.some.inj (by rwa [lineComment?_utf8] at h))
  | blockComment h => exact hclosed (by rwa [blockComment?_utf8] at h)
  | quotedString hq h =>
    simp only [quotes, List.mem_cons, List.not_mem_nil, or_false] at hq
    rcases hq with rfl | rfl | rfl
    · exact hfound ((quoted?_utf8 (q := '\x27') (by decide) (by decide) rest).symm.trans h)
    · exact hfound ((quoted?_utf8 (q := '"') (by decide) (by decide) rest).symm.trans h)
    · exact hfound ((quoted?_utf8 (q := '\x60') (by decide) (by decide) rest).symm.trans h)
  | dollarQuote h => exact hclosed (by rwa [dollarQuote?_utf8] at h)
  | identifier h => exact hfound (by rwa [identifier?_utf8] at h)
  | blanks h => exact hfound (by rwa [blanks?_utf8] at h)
  | character h => exact hfound (by rwa [character?_utf8] at h)

end Bytes

def Token.utf8 (t : Token) : Token.Kind × Bytes × Nat := (t.kind, t.text.utf8, t.start)

namespace Cursor
open Bytes

/-- A cursor reads the bytes of its script as it reads the characters. -/
theorem nextToken?_utf8 (c : Cursor) :
    nextToken? c.settings (Text.utf8 (c.consumed.text ++ c.remaining)) c.offset =
      some (c.nextToken.1.map Token.utf8, c.nextToken.2.offset) := by
  have hoffset := c.offset_eq
  by_cases hr : c.remaining = []
  · have hlength : (Text.utf8 (c.consumed.text ++ c.remaining)).length = c.offset := by
      rw [hr, List.append_nil, Text.length_utf8, hoffset]
    rw [nextToken_atEnd hr, nextToken?, hlength, if_pos (Nat.le_refl _)]
    rfl
  · have hpos : 0 < c.remaining.byteSize := by
      obtain ⟨b, rest, hcons⟩ := List.exists_cons_of_ne_nil hr
      have := b.utf8Size_pos
      rw [hcons, Text.byteSize_cons]
      omega
    have hlength : ¬ (Text.utf8 (c.consumed.text ++ c.remaining)).length ≤ c.offset := by
      rw [Text.length_utf8, Text.byteSize_append, hoffset]
      omega
    rw [nextToken?, if_neg hlength, hoffset, Text.utf8_append, classify?_utf8 hr, nextToken]
    cases hc : Token.classify c.settings c.remaining with
    | error why =>
      simp only [Option.bind_eq_bind, Option.bind_some, hoffset]
      rfl
    | ok found =>
      obtain ⟨kind, n⟩ := found
      have hslice := slice?_utf8 c.consumed.text (c.remaining.take n) (c.remaining.drop n)
      rw [List.append_assoc, List.take_append_drop, Text.utf8_append] at hslice
      simp only [Option.bind_eq_bind, Option.bind_some, Text.byteOffset, hslice, advance, hoffset]
      rfl

/-- The cursor stands somewhere in a script, with all of it before or after it. -/
def StandsIn (c : Cursor) (settings : Settings) (script : Text) : Prop :=
  c.settings = settings ∧ c.consumed.text ++ c.remaining = script

namespace StandsIn
variable {c d : Cursor} {settings : Settings} {script : Text}

theorem nextToken {t : Token} (h : c.StandsIn settings script) (ht : c.nextToken = (.ok t, d)) :
    d.StandsIn settings script := by
  obtain ⟨hsettings, hscript⟩ := h
  obtain ⟨-, hremaining, hconsumed, hsame⟩ := nextToken_shape ht
  refine ⟨hsame.trans hsettings, ?_⟩
  rw [← hscript, hconsumed, hremaining, List.append_assoc]

theorem callAll (h : c.StandsIn settings script) (calls : List Call) :
    (c.callAll calls).2.StandsIn settings script := by
  obtain ⟨hsettings, hscript⟩ := h
  obtain ⟨hremaining, hconsumed, hsame⟩ := (c.respondsAll_callAll calls).reads.shape
  refine ⟨hsame.trans hsettings, ?_⟩
  rw [← hscript, hremaining, ← List.append_assoc, ← hconsumed]

theorem runs {p : Assembly.Mode → Prop} {a b : Assembly} (h : c.StandsIn settings script)
    (hrun : Runs p c a d b) : d.StandsIn settings script := by
  induction hrun with
  | stays c a => exact h
  | reads _ ht _ ih => exact ih (h.nextToken ht)

end StandsIn

/-- No cut ever falls inside a character. Whatever has been called before, wherever splitting has
come to from there, and whatever the delimiters are, the cursor stands between two characters of
the script. What any matcher takes from there ends between two characters. The matchers that cut
and the place of a failure always have a result, and so has the reading of the next token from the
bytes, which is the one that the cursor does. -/
theorem cuts_fall_between_characters (settings : Settings) (script : Text) (calls : List Call)
    (d : Cursor) (a : Assembly)
    (h : Runs (· ≠ .finished) ((start settings script).callAll calls).2 .empty d a) :
    d.offset ≤ script.utf8.length ∧ isBoundary script.utf8 d.offset = true ∧
    sliceFrom? script.utf8 d.offset = some d.remaining.utf8 ∧
    (∀ n, Takes settings d.remaining.utf8 n → isBoundary d.remaining.utf8 n = true) ∧
    (lineComment? settings.lineComment.utf8 d.remaining.utf8).isSome = true ∧
    (blockComment? settings.blockOpen.utf8 settings.blockClose.utf8 d.remaining.utf8).isSome =
      true ∧
    (dollarQuote? d.remaining.utf8).isSome = true ∧
    (lineColumn? script.utf8 d.offset).isSome = true ∧
    nextToken? settings script.utf8 d.offset =
      some (d.nextToken.1.map Token.utf8, d.nextToken.2.offset) := by
  have hstart : (start settings script).StandsIn settings script := ⟨rfl, rfl⟩
  obtain ⟨rfl, rfl⟩ := (hstart.callAll calls).runs h
  refine ⟨?_, ?_, ?_, fun n hn => hn.isBoundary, ?_, ?_, ?_, ?_, nextToken?_utf8 d⟩
  · rw [Text.length_utf8, Text.byteSize_append, d.offset_eq]
    exact Nat.le_add_right _ _
  · rw [d.offset_eq]
    exact isBoundary_front (List.prefix_append _ _)
  · rw [d.offset_eq, Text.utf8_append, sliceFrom?_utf8]
  · rw [lineComment?_utf8]
    rfl
  · rw [blockComment?_utf8]
    rfl
  · rw [dollarQuote?_utf8]
    rfl
  · rw [d.offset_eq, Text.utf8_append, lineColumn?_front]
    rfl

/-- Delimiters and letters of two, three and four bytes, and an escape before a letter of two, read
behind one call and one token of a split. -/
theorem cuts_fall_between_characters_of_many_bytes :
    ∃ d a, Runs (· ≠ .finished)
        ((start ⟨[], ['é'], ['№'], ['«'], ['»']⟩
          ['é', '«', '𝕊', '»', '"', '\\', 'é', '"', '№', 'x']).callAll [.next]).2 .empty d a ∧
      d.offset = 10 ∧
      nextToken? ⟨[], ['é'], ['№'], ['«'], ['»']⟩
          (Text.utf8 ['é', '«', '𝕊', '»', '"', '\\', 'é', '"', '№', 'x']) 10 =
        some (.ok (.quotedString, [0x22, 0x5C, 0xC3, 0xA9, 0x22], 10), 15) := by
  have h : Runs (· ≠ .finished)
      ((start ⟨[], ['é'], ['№'], ['«'], ['»']⟩
        ['é', '«', '𝕊', '»', '"', '\\', 'é', '"', '№', 'x']).callAll [.next]).2 .empty _ _ :=
    .reads (by decide) rfl (.stays _ _)
  exact ⟨_, _, h, rfl, (cuts_fall_between_characters _ _ _ _ _ h).2.2.2.2.2.2.2.2⟩

end Cursor
end SqlStatements
