import Mathlib.Data.List.Forall2
import SqlStatements.Proofs.Assembling

namespace SqlStatements

/-- The last characters of a buffer that decide what is written into a gap. -/
def Assembly.marks : List Char := [' ', '\n', '\x27', '"']

/-- A relation of texts that the making of statements respects. -/
structure Text.Resemblance (R : Text → Text → Prop) : Prop where
  nil : R [] []
  space : R [' '] [' ']
  lineBreak : R ['\n'] ['\n']
  append {s s' t t' : Text} : R s s' → R t t' → R (s ++ t) (s' ++ t')
  trim {t t' : Text} : R t t' → R t.trim t'.trim
  eq_nil_iff {t t' : Text} : R t t' → (t = [] ↔ t' = [])
  getLast?_iff {t t' : Text} {c : Char} : R t t' → c ∈ Assembly.marks →
    (t.getLast? = some c ↔ t'.getLast? = some c)

/-- The tokens have texts that resemble each other and are the same in all else that the
making of statements looks at. -/
structure Token.Resembles (R : Text → Text → Prop) (t u : Token) : Prop where
  kind : t.kind = u.kind
  text : R t.text u.text
  isBegin : t.isBegin = u.isBegin
  isEnd : t.isEnd = u.isEnd
  semicolon : t.text = [';'] ↔ u.text = [';']
  lineBreak : t.text.any isLineBreak = u.text.any isLineBreak

theorem Text.resemblance_eq : Text.Resemblance Eq where
  nil := rfl
  space := rfl
  lineBreak := rfl
  append h k := by rw [h, k]
  trim h := by rw [h]
  eq_nil_iff h := by rw [h]
  getLast?_iff h _ := by rw [h]

theorem Token.resembles_of_content {t u : Token} (h : t.content = u.content) :
    t.Resembles Eq u := by
  obtain ⟨hkind, htext⟩ := Prod.mk.inj h
  have hkeyword (word : Text) : t.isKeyword word = u.isKeyword word := by
    unfold Token.isKeyword
    rw [hkind, htext]
  exact ⟨hkind, htext, hkeyword _, hkeyword _, by rw [htext], by rw [htext]⟩

namespace Assembly

inductive Mode.Resembles (R : Text → Text → Prop) : Mode → Mode → Prop where
  | standard : Resembles R .standard .standard
  | block (top : Frame) (below : List Frame) : Resembles R (.block top below) (.block top below)
  | closing (top : Frame) (below : List Frame) {held held' : Text} :
      R held held' → Resembles R (.closing top below held) (.closing top below held')
  | finished : Resembles R .finished .finished

/-- The assemblies have texts that resemble each other and differ otherwise at most in what
they have logged. -/
structure Resembles (R : Text → Text → Prop) (a b : Assembly) : Prop where
  mode : a.mode.Resembles R b.mode
  gap : a.gap = b.gap
  buffer : R a.buffer.text b.buffer.text
  statements : List.Forall₂ R a.statements b.statements

end Assembly

section Laws
variable {R : Text → Text → Prop} (hR : Text.Resemblance R)
include hR

theorem Text.Resemblance.kept {t t' : Text} (h : R t t') : List.Forall₂ R t.kept t'.kept := by
  have hiff := hR.eq_nil_iff (hR.trim h)
  by_cases ht : t.trim = []
  · have ht' := hiff.mp ht
    unfold Text.kept
    rw [ht, ht']
    exact .nil
  · rw [Text.kept_of_ne_nil ht, Text.kept_of_ne_nil (mt hiff.mpr ht)]
    exact .cons (hR.trim h) .nil

theorem Text.Resemblance.filler (gap : Gap) (last : Option Char) (next : Token.Kind) :
    R [Assembly.filler gap last next] [Assembly.filler gap last next] ∧
      Assembly.filler gap last next ∈ Assembly.marks := by
  unfold Assembly.filler
  split
  · exact ⟨hR.lineBreak, by decide⟩
  · exact ⟨hR.space, by decide⟩

namespace Assembly.Resembles
variable {a b : Assembly} {t u : Token}

theorem push {text text' : Text} (h : a.Resembles R b) (ht : R text text') :
    (a.push text).Resembles R (b.push text') := by
  refine ⟨h.mode, h.gap, ?_, h.statements⟩
  rw [text_buffer_push, text_buffer_push]
  exact hR.append h.buffer ht

theorem flush (h : a.Resembles R b) : a.flush.Resembles R b.flush := by
  refine ⟨h.mode, h.gap, hR.nil, ?_⟩
  rw [statements_flush, statements_flush]
  exact List.rel_append h.statements (hR.kept h.buffer)

omit hR in
theorem log (h : a.Resembles R b) (e f : Event) : (a.log e).Resembles R (b.log f) :=
  ⟨h.mode, h.gap, h.buffer, h.statements⟩

omit hR in
theorem goTo {m n : Mode} (h : a.Resembles R b) (hm : m.Resembles R n) :
    (a.goTo m).Resembles R (b.goTo n) :=
  ⟨hm, h.gap, h.buffer, h.statements⟩

omit hR in
theorem withGap (h : a.Resembles R b) (gap : Gap) :
    { a with gap := gap }.Resembles R { b with gap := gap } :=
  ⟨h.mode, rfl, h.buffer, h.statements⟩

/-- A gap is filled alike, since only marks at the end of the buffer decide about it. -/
theorem fillGap (h : a.Resembles R b) (hk : t.kind = u.kind) :
    (a.fillGap t).Resembles R (b.fillGap u) := by
  have hlast {c : Char} (hc : c ∈ marks) : a.buffer.last? = some c ↔ b.buffer.last? = some c := by
    rw [Buffer.last?_eq, Buffer.last?_eq]
    exact hR.getLast?_iff h.buffer hc
  have hempty : a.buffer.isEmpty = true ↔ b.buffer.isEmpty = true := by
    rw [Buffer.isEmpty_eq, Buffer.isEmpty_eq, List.isEmpty_iff, List.isEmpty_iff]
    exact hR.eq_nil_iff h.buffer
  have hfiller : filler a.gap a.buffer.last? t.kind = filler b.gap b.buffer.last? u.kind := by
    have hquote := hlast (c := '\x27') (by decide)
    have hname := hlast (c := '"') (by decide)
    unfold filler
    simp only [h.gap, hk, hquote, hname]
  obtain ⟨hc, hmark⟩ := hR.filler b.gap b.buffer.last? u.kind
  unfold Assembly.fillGap
  dsimp only
  rw [hfiller]
  generalize filler b.gap b.buffer.last? u.kind = c at hc hmark
  have hiff : (a.gap = .none ∨ a.buffer.isEmpty = true ∨ a.buffer.last? = some c) ↔
      (b.gap = .none ∨ b.buffer.isEmpty = true ∨ b.buffer.last? = some c) := by
    rw [h.gap, hempty, hlast hmark]
  by_cases hb : b.gap = .none ∨ b.buffer.isEmpty = true ∨ b.buffer.last? = some c
  · rw [if_pos (hiff.mpr hb), if_pos hb]
    exact h.withGap .none
  · rw [if_neg (mt hiff.mp hb), if_neg hb]
    exact (h.push hR hc).withGap .none

theorem close (h : a.Resembles R b) (below : List Frame) :
    (a.close below).Resembles R (b.close below) := by
  cases below with
  | nil => exact ((h.log _ _).flush hR).goTo .standard
  | cons top below => exact (h.log _ _).goTo (.block top below)

theorem readStandard (h : a.Resembles R b) (ht : t.Resembles R u) :
    (a.readStandard t).Resembles R (b.readStandard u) := by
  have hwritten := (h.fillGap hR ht.kind).push hR ht.text
  unfold Assembly.readStandard
  rw [ht.kind, ht.isBegin, ht.lineBreak]
  split
  · exact (h.flush hR).goTo .finished
  · exact (h.flush hR).withGap .none
  · exact h
  · exact h.withGap _
  · split
    · exact (hwritten.log _ _).goTo (.block _ _)
    · exact hwritten
  · exact hwritten
  · exact hwritten

theorem readBlock (h : a.Resembles R b) (top : Frame) (below : List Frame)
    (ht : t.Resembles R u) : (a.readBlock top below t).Resembles R (b.readBlock top below u) := by
  have hwritten := h.push hR ht.text
  unfold Assembly.readBlock Token.isEof
  rw [ht.kind, ht.isBegin, ht.isEnd]
  split
  · exact ((h.log _ _).flush hR).goTo .standard
  split
  · exact (hwritten.log _ _).goTo (.block _ _)
  split
  · exact hwritten.goTo (.closing top below hR.nil)
  · exact hwritten

theorem readClosing {held held' : Text} (h : a.Resembles R b) (top : Frame) (below : List Frame)
    (hheld : R held held') (ht : t.Resembles R u) :
    (a.readClosing top below held t).Resembles R (b.readClosing top below held' u) := by
  have hboth := hR.append hheld ht.text
  have hwritten := h.push hR hboth
  have hsemicolon := ht.semicolon
  unfold Assembly.readClosing Token.isEof Token.isTrivia
  simp only [ht.kind, hsemicolon]
  split
  · exact h.close hR below
  split
  · exact h.goTo (.closing top below hboth)
  split
  · split
    · exact h.close hR below
    · exact hwritten.close hR below
  split
  · split
    · exact (h.push hR ht.text).close hR below
    · exact hwritten.close hR below
  · exact hwritten.goTo (.block top below)

theorem read (h : a.Resembles R b) (ht : t.Resembles R u) :
    (a.read t).Resembles R (b.read u) := by
  have hmode := h.mode
  unfold Assembly.read
  cases ha : a.mode <;> cases hb : b.mode <;> rw [ha, hb] at hmode <;> cases hmode
  · exact h.readStandard hR ht
  · exact h.readBlock hR _ _ ht
  · rename_i hheld
    exact h.readClosing hR _ _ hheld ht
  · exact h

theorem readAll {ts us : List Token} (h : a.Resembles R b)
    (hts : List.Forall₂ (Token.Resembles R) ts us) : (a.readAll ts).Resembles R (b.readAll us) := by
  induction hts generalizing a b with
  | nil => exact h
  | cons ht _ ih => exact ih (h.read hR ht)

theorem conclude (h : a.Resembles R b) : a.conclude.Resembles R b.conclude := by
  have heof : (Token.eof 0).Resembles R (.eof 0) := ⟨rfl, hR.nil, rfl, rfl, .rfl, rfl⟩
  exact ((h.read hR heof).read hR heof).read hR heof

end Assembly.Resembles
end Laws

end SqlStatements
