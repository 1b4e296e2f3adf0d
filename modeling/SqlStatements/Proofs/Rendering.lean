import SqlStatements.Proofs.Assembling

namespace SqlStatements

namespace Rendering

/-- What stands between two significant tokens that follow each other, given the blanks
between them. Only the last blanks before a literal can join it to the literal before. -/
def between (u : Token) (blanks : List Token) (v : Token) : Text :=
  match blanks.getLast? with
  | none => []
  | some w =>
    if w.text.any isLineBreak ∧ v.kind = .quotedString ∧
        (u.text.getLast? = some '\x27' ∨ u.text.getLast? = some '"') then ['\n']
    else [' ']

/-- The tokens other than blanks, each with the blanks before it. -/
def grouped (blanks : List Token) : List Token → List (List Token × Token)
  | [] => []
  | t :: ts =>
    if t.kind = .whitespace then grouped (blanks ++ [t]) ts else (blanks, t) :: grouped [] ts

def behind (u : Token) : List (List Token × Token) → Text
  | [] => []
  | (blanks, v) :: later => between u blanks v ++ v.text ++ behind v later

def joined : List (List Token × Token) → Text
  | [] => []
  | (_, t) :: later => t.text ++ behind t later

/-- The text of the tokens between two separators: without comments, and with the blanks
between two tokens in place of all that stands there. -/
def segment (ts : List Token) : Text := joined (grouped [] (ts.filter (·.kind ≠ .comment)))

/-- The statements of a script without blocks. -/
def statements (ts : List Token) : List Text :=
  ((ts.splitOnP (·.kind == .separator)).map fun seg => (segment seg).trim).filter (· ≠ [])

/-- What is written before the next significant token. Nothing is before the first one. -/
def filling (last : Option Token) (blanks : List Token) (v : Token) : Text :=
  match last with
  | none => []
  | some u => between u blanks v

/-- What the tokens add to a segment whose last significant token is `last` and which ends
with `blanks`. -/
def added (last : Option Token) (blanks : List Token) (ts : List Token) : Text :=
  match last with
  | none => joined (grouped blanks (ts.filter (·.kind ≠ .comment)))
  | some u => behind u (grouped blanks (ts.filter (·.kind ≠ .comment)))

theorem added_nil (last : Option Token) (blanks : List Token) : added last blanks [] = [] := by
  cases last <;> rfl

theorem added_comment {t : Token} (h : t.kind = .comment) (last : Option Token)
    (blanks ts : List Token) : added last blanks (t :: ts) = added last blanks ts := by
  simp [added, h]

theorem added_whitespace {t : Token} (h : t.kind = .whitespace) (last : Option Token)
    (blanks ts : List Token) : added last blanks (t :: ts) = added last (blanks ++ [t]) ts := by
  simp [added, h, grouped]

theorem added_significant {t : Token} (h : t.isTrivia = false) (last : Option Token)
    (blanks ts : List Token) :
    added last blanks (t :: ts) =
      filling last blanks t ++ t.text ++ added (some t) [] ts := by
  obtain ⟨hc, hw⟩ : t.kind ≠ .comment ∧ t.kind ≠ .whitespace := by
    simpa [Token.isTrivia] using h
  cases last <;> simp [added, filling, hc, hw, grouped, joined, behind]

/-- The token stays inside of its segment, and opens no block. -/
def isPlain (t : Token) : Bool := t.kind != .separator && !t.isBegin

theorem isSignificant_of_isPlain {t : Token} (hp : isPlain t = true) (he : t.isEof = false)
    (ht : t.isTrivia = false) : t.isSignificant = true := by
  have hsep : t.kind ≠ .separator := by
    intro hk
    simp [isPlain, hk] at hp
  have heof : t.kind ≠ .eof := by simpa [Token.isEof] using he
  obtain ⟨hcom, hws⟩ : t.kind ≠ .comment ∧ t.kind ≠ .whitespace := by
    simpa [Token.isTrivia] using ht
  cases hk : t.kind with
  | separator => exact absurd hk hsep
  | comment => exact absurd hk hcom
  | whitespace => exact absurd hk hws
  | eof => exact absurd hk heof
  | quotedString => simp [Token.isSignificant, hk]
  | identifier => simp [Token.isSignificant, hk]
  | other => simp [Token.isSignificant, hk]

def gap (blanks : List Token) : Gap :=
  match blanks.getLast? with
  | none => .none
  | some w => if w.text.any isLineBreak then .lineBreak else .spaces

end Rendering

open Rendering

/-- The assembly stands in a segment behind its significant token `last` and the blanks
after that. -/
structure Assembly.Standing (a : Assembly) (last : Option Token) (blanks : List Token) : Prop where
  mode : a.mode = .standard
  gap : a.gap = Rendering.gap blanks
  empty : last = none → a.buffer.text = []
  ending : ∀ u ∈ last, a.buffer.text.getLast? = u.text.getLast? ∧
    ∃ c ∈ u.text.getLast?, isAsciiBlank c = false

namespace Assembly

/-- An assembly between two statements. -/
def Fresh (a : Assembly) : Prop := a.Standing none []

theorem fresh_iff {a : Assembly} :
    a.Fresh ↔ a.mode = .standard ∧ a.gap = .none ∧ a.buffer.text = [] := by
  constructor
  · intro h
    exact ⟨h.mode, h.gap, h.empty rfl⟩
  · rintro ⟨hm, hg, hb⟩
    exact ⟨hm, hg, fun _ => hb, by simp⟩

/-- Between two tokens with blanks stands the character that fills the gap. -/
theorem between_eq_filler {blanks : List Token} (h : blanks ≠ []) (u v : Token) :
    between u blanks v = [filler (Rendering.gap blanks) u.text.getLast? v.kind] := by
  have hw := List.getLast?_eq_some_getLast h
  rw [between, Rendering.gap, hw, filler]
  by_cases hb : (blanks.getLast h).text.any isLineBreak = true
  · simp only [hb, true_and, if_true]
    split
    · rename_i hv
      rw [if_pos ⟨hv.2, hv.1⟩]
    · rename_i hv
      rw [if_neg (fun hc => hv ⟨hc.2, hc.1⟩)]
  · simp [hb]

theorem isAsciiBlank_filler (gap : Gap) (last : Option Char) (next : Token.Kind) :
    isAsciiBlank (filler gap last next) = true := by
  unfold filler
  split <;> decide

/-- Writes the gap before the next token, whatever the buffer ends with. -/
def writeGap (a : Assembly) (next : Token) : Assembly :=
  if a.gap = .none ∨ a.buffer.text = [] then { a with gap := .none }
  else { a.push [filler a.gap a.buffer.text.getLast? next.kind] with gap := .none }

/-- What fills a gap is a blank, so behind any other character it is never there already. -/
theorem fillGap_eq_writeGap {a : Assembly}
    (h : ∀ c ∈ a.buffer.text.getLast?, isAsciiBlank c = false) (t : Token) :
    a.fillGap t = a.writeGap t := by
  have hnew : a.buffer.text.getLast? ≠ some (filler a.gap a.buffer.text.getLast? t.kind) := by
    intro he
    have := h _ he
    rw [isAsciiBlank_filler] at this
    cases this
  simp [fillGap, writeGap, hnew]

/-- The gap is written as the one between its two neighbours. None is left out, since no
significant token ends with a blank. -/
theorem Standing.fillGap {a : Assembly} {last : Option Token} {blanks : List Token}
    (h : a.Standing last blanks) (t : Token) :
    (a.fillGap t).buffer.text =
      a.buffer.text ++ filling last blanks t := by
  cases last with
  | none => simp [Assembly.fillGap, filling, h.empty rfl]
  | some u =>
    obtain ⟨hl, c, hc, hb⟩ := h.ending u rfl
    rw [Option.mem_def.mp hc] at hl
    have hsolid : ∀ d ∈ a.buffer.text.getLast?, isAsciiBlank d = false := by
      rw [hl]
      simpa using hb
    rw [fillGap_eq_writeGap hsolid, writeGap, h.gap, hl, filling]
    by_cases hblanks : blanks = []
    · simp [hblanks, Rendering.gap, between]
    · have hgap : Rendering.gap blanks ≠ .none := by
        rw [Rendering.gap, List.getLast?_eq_some_getLast hblanks]
        dsimp only
        split <;> simp
      have hne : a.buffer.text ≠ [] := by
        intro he
        rw [he] at hl
        cases hl
      rw [if_neg (by simp [hgap, hne]), between_eq_filler hblanks, Option.mem_def.mp hc]
      exact a.text_buffer_push _

theorem Standing.read_comment {a : Assembly} {last : Option Token} {blanks : List Token}
    (h : a.Standing last blanks) {t : Token} (ht : t.kind = .comment) : a.read t = a := by
  rw [read_standard h.mode, readStandard, ht]

theorem Standing.read_whitespace {a : Assembly} {last : Option Token} {blanks : List Token}
    (h : a.Standing last blanks) {t : Token} (ht : t.kind = .whitespace) :
    (a.read t).Standing last (blanks ++ [t]) ∧ (a.read t).buffer = a.buffer ∧
      (a.read t).statements = a.statements := by
  rw [read_standard h.mode, readStandard, ht]
  exact ⟨⟨h.mode, by simp [Rendering.gap], h.empty, h.ending⟩, rfl, rfl⟩

/-- A significant token that opens no block is written behind the gap. -/
theorem read_significant {a : Assembly} (h : a.mode = .standard) {t : Token}
    (ht : t.isSignificant = true) (hb : t.isBegin = false) :
    a.read t = (a.fillGap t).push t.text := by
  rw [read_standard h, readStandard]
  cases hk : t.kind with
  | identifier => simp [hb]
  | quotedString => rfl
  | other => rfl
  | separator => simp [Token.isSignificant, hk] at ht
  | comment => simp [Token.isSignificant, hk] at ht
  | whitespace => simp [Token.isSignificant, hk] at ht
  | eof => simp [Token.isSignificant, hk] at ht

/-- `BEGIN` is written like any other token, and opens the outermost block. -/
theorem read_begin {a : Assembly} (h : a.mode = .standard) {t : Token} (hb : t.isBegin = true) :
    a.read t =
      (((a.fillGap t).push t.text).log (.blockEntered t.stop)).goTo (.block ⟨true⟩ []) := by
  rw [read_standard h, readStandard, Token.kind_of_isKeyword hb]
  simp [hb]

/-- Plain tokens do not lead into a block. -/
theorem mode_read_plain {a : Assembly} {t : Token} (h : a.mode = .standard)
    (hp : isPlain t = true) (he : t.isEof = false) : (a.read t).mode = .standard := by
  obtain ⟨hsep, hbegin⟩ : t.kind ≠ .separator ∧ t.isBegin = false := by
    simpa [isPlain] using hp
  cases ht : t.isTrivia with
  | true =>
    rw [read_standard h, readStandard]
    obtain ⟨kind, text, start⟩ := t
    cases kind <;> first | exact h | cases ht
  | false =>
    rw [Assembly.read_significant h (isSignificant_of_isPlain hp he ht) hbegin]
    simp [h]

/-- `BEGIN` goes to the text before the block. -/
theorem read_begin_fields {a : Assembly} (h : a.mode = .standard) {t : Token}
    (hb : t.isBegin = true) :
    (a.read t).mode = .block ⟨true⟩ [] ∧ (a.read t).gap = .none ∧
      (a.read t).statements = a.statements ∧
      (a.read t).buffer.text = (a.fillGap t).buffer.text ++ t.text := by
  rw [read_begin h hb]
  exact ⟨rfl, by simp, by simp, by simp⟩

theorem Standing.read_significant {a : Assembly} {last : Option Token} {blanks : List Token}
    (h : a.Standing last blanks) {t : Token} (ht : t.isSignificant = true)
    (hb : t.isBegin = false) (he : ∃ c ∈ t.text.getLast?, isAsciiBlank c = false) :
    (a.read t).Standing (some t) [] ∧
      (a.read t).buffer.text = a.buffer.text ++ filling last blanks t ++ t.text ∧
      (a.read t).statements = a.statements := by
  rw [Assembly.read_significant h.mode ht hb]
  refine ⟨⟨by simp [h.mode], by simp [Rendering.gap], by simp, ?_⟩, by simp [h.fillGap], by simp⟩
  intro u hu
  obtain rfl := Option.some.inj hu
  refine ⟨?_, he⟩
  obtain ⟨c, hc, -⟩ := he
  rw [text_buffer_push, List.getLast?_append, Option.mem_def.mp hc]
  rfl

/-- Plain tokens add their text to the segment, however it goes on. -/
theorem Standing.readAll {s : Settings} {a : Assembly} {last : Option Token}
    {blanks ts us : List Token} (h : a.Standing last blanks) (hc : Token.Chain s (ts ++ us))
    (hp : ∀ t ∈ ts, isPlain t = true) :
    ∃ last' blanks', (a.readAll ts).Standing last' blanks' ∧
      (a.readAll ts).statements = a.statements ∧
      ∀ vs, (a.readAll ts).buffer.text ++ added last' blanks' vs =
        a.buffer.text ++ added last blanks (ts ++ vs) := by
  induction ts generalizing a last blanks with
  | nil => exact ⟨last, blanks, h, rfl, fun vs => rfl⟩
  | cons t ts ih =>
    have hrest : ∀ u ∈ ts, isPlain u = true := fun u hu => hp u (by simp [hu])
    obtain ⟨hsep, hbegin⟩ : t.kind ≠ .separator ∧ t.isBegin = false := by
      simpa [isPlain] using hp t (by simp)
    by_cases hcom : t.kind = .comment
    · rw [readAll_cons, h.read_comment hcom]
      obtain ⟨last', blanks', hs, hst, ht⟩ := ih h hc.2 hrest
      refine ⟨last', blanks', hs, hst, ?_⟩
      intro vs
      rw [ht, List.cons_append, added_comment hcom]
    by_cases hws : t.kind = .whitespace
    · obtain ⟨hnext, hbuf, hkeep⟩ := h.read_whitespace hws
      obtain ⟨last', blanks', hs, hst, ht⟩ := ih hnext hc.2 hrest
      refine ⟨last', blanks', hs, hst.trans hkeep, ?_⟩
      intro vs
      rw [readAll_cons, ht, hbuf, List.cons_append, added_whitespace hws]
    have hsig : t.isSignificant = true :=
      isSignificant_of_isPlain (hp t (by simp)) hc.1.isEof (by simp [Token.isTrivia, hcom, hws])
    obtain ⟨hnext, hbuf, hkeep⟩ := h.read_significant hsig hbegin (hc.1.solid hsig)
    obtain ⟨last', blanks', hs, hst, ht⟩ := ih hnext hc.2 hrest
    refine ⟨last', blanks', hs, hst.trans hkeep, ?_⟩
    intro vs
    rw [readAll_cons, ht, hbuf, List.cons_append,
      added_significant (Token.isTrivia_eq_false_of_isSignificant hsig)]
    simp only [List.append_assoc]

/-- At the end of the input an assembly outside of blocks ends its statement. -/
theorem conclude_eq_of_standard {a : Assembly} (h : a.mode = .standard) :
    a.conclude = a.flush.goTo .finished := by
  have hr : a.read (.eof 0) = a.flush.goTo .finished := by
    rw [read_standard h, readStandard]
    rfl
  rw [conclude, hr, read_finished rfl, read_finished rfl]

theorem conclude_standard {a : Assembly} (h : a.mode = .standard) :
    a.conclude.statements = a.statements ++ a.buffer.text.kept := by
  rw [conclude_eq_of_standard h]
  simp

theorem read_separator {a : Assembly} (h : a.mode = .standard) {t : Token}
    (ht : t.kind = .separator) :
    (a.read t).Fresh ∧
      (a.read t).statements = a.statements ++ a.buffer.text.kept := by
  rw [read_standard h, readStandard, ht]
  refine ⟨fresh_iff.mpr ⟨h, rfl, rfl⟩, ?_⟩
  exact statements_flush a

/-- The segment that an assembly has read since the last statement. -/
theorem Fresh.readAll {s : Settings} {a : Assembly} {ts us : List Token} (h : a.Fresh)
    (hc : Token.Chain s (ts ++ us)) (hp : ∀ t ∈ ts, isPlain t = true) :
    (a.readAll ts).mode = .standard ∧ (a.readAll ts).statements = a.statements ∧
      (a.readAll ts).buffer.text = segment ts := by
  obtain ⟨last, blanks, hs, hst, ht⟩ := Standing.readAll h hc hp
  refine ⟨hs.mode, hst, ?_⟩
  have := ht []
  rwa [added_nil, List.append_nil, List.append_nil, h.empty rfl] at this

/-- A block that opens behind a segment begins with the segment's text. -/
theorem Fresh.readAll_begin {s : Settings} {a : Assembly} {ts us : List Token} {b : Token}
    (h : a.Fresh) (hc : Token.Chain s (ts ++ b :: us)) (hp : ∀ t ∈ ts, isPlain t = true)
    (hb : b.isBegin = true) :
    ((a.readAll ts).read b).mode = .block ⟨true⟩ [] ∧ ((a.readAll ts).read b).gap = .none ∧
      ((a.readAll ts).read b).statements = a.statements ∧
      ((a.readAll ts).read b).buffer.text = segment (ts ++ [b]) := by
  obtain ⟨last, blanks, hs, hst, ht⟩ := Standing.readAll h hc hp
  have htr : b.isTrivia = false := by simp [Token.isTrivia, Token.kind_of_isKeyword hb]
  obtain ⟨hmode, hgap, hkept, hbuf⟩ := read_begin_fields hs.mode hb
  refine ⟨hmode, hgap, hkept.trans hst, ?_⟩
  have := ht [b]
  rw [added_significant htr, added_nil, List.append_nil, h.empty rfl, List.nil_append] at this
  rw [hbuf, hs.fillGap, List.append_assoc]
  exact this

end Assembly
end SqlStatements
