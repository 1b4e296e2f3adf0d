import SqlStatements.Proofs.ByteReading
import SqlStatements.Proofs.Occurrences
import SqlStatements.Proofs.Positions

namespace SqlStatements

theorem Position.at?_byteSize {s script : Text} (h : s <+: script) :
    at? script s.byteSize = some (after s) := by
  obtain ⟨rest, rfl⟩ := h
  rw [at?, Text.takeBytes?_append]
  rfl

namespace Token

/-- A token stands behind the text of the tokens before it. -/
theorem mem_placed_iff {before : Text} {ts : List Token} {place : Position} {t : Token} :
    (place, t) ∈ placed before ts ↔
      ∃ us vs, ts = us ++ t :: vs ∧ place = .after (before ++ us.flatMap text) := by
  induction ts generalizing before with
  | nil => simp [placed]
  | cons u ts ih =>
    rw [placed, List.mem_cons, ih]
    constructor
    · rintro (he | ⟨us, vs, rfl, rfl⟩)
      · cases he
        exact ⟨[], ts, rfl, by simp⟩
      · exact ⟨u :: us, vs, rfl, by simp⟩
    · rintro ⟨us, vs, hts, rfl⟩
      cases us with
      | nil =>
        cases hts
        simp
      | cons v us =>
        cases hts
        exact .inr ⟨us, vs, rfl, by simp⟩

theorem placed_append (before : Text) (ts us : List Token) :
    placed before (ts ++ us) = placed before ts ++ placed (before ++ ts.flatMap text) us := by
  induction ts generalizing before with
  | nil => simp [placed]
  | cons t ts ih => simp [placed, ih]

/-- The places of tokens increase as long as only the last one may be empty. -/
theorem pairwise_placed {before : Text} {ts : List Token} (h : ∀ t ∈ ts, t.text ≠ []) (u : Token) :
    (placed before (ts ++ [u])).Pairwise fun p q => p.1.Before q.1 := by
  induction ts generalizing before with
  | nil => simp [placed]
  | cons t ts ih =>
    rw [List.cons_append, placed, List.pairwise_cons]
    refine ⟨?_, ih fun v hv => h v (by simp [hv])⟩
    rintro ⟨place, v⟩ hv
    obtain ⟨us, vs, -, rfl⟩ := mem_placed_iff.mp hv
    apply Position.before_after
    · rw [List.append_assoc]
      exact List.prefix_append _ _
    · simp [h t (by simp)]

end Token

/-- Tokens that are read have the places of their starts in the list. -/
theorem TokenStream.map_position?_read (s : Settings) (before rest : Text) :
    (read s before.byteSize rest).tokens.map (·.position? (before ++ rest)) =
      (Token.placed before (read s before.byteSize rest).tokens).map fun p => some p.1 := by
  induction rest using text_induction (s := s) generalizing before with
  | nil =>
    rw [read_nil]
    rfl
  | unclosed w why hw =>
    rw [read_of_error before.byteSize hw]
    rfl
  | token kind x v hx ih =>
    have hrest := ih (before ++ x)
    rw [Text.byteSize_append, List.append_assoc] at hrest
    rw [read_of_leads (hx 0), List.map_cons, Token.placed, List.map_cons, hrest, Token.position?,
      Position.at?_byteSize (List.prefix_append before (x ++ v))]

/-- The places that are listed for the tokens of a scan are those of their starts, and increase. -/
theorem places_of_scan {settings : Settings} {script : Text} {ts : List Token}
    (hscan : scan settings script = .ok ts) :
    ts.map (·.position? script) = (Token.placed [] ts).map (fun p => some p.1) ∧
      (Token.placed [] ts).Pairwise fun p q => p.1.Before q.1 := by
  obtain ⟨-, hu, rfl⟩ := scan_eq_ok_iff.mp hscan
  obtain ⟨hchain, htext⟩ := TokenStream.chain_read hu
  constructor
  · have hread := TokenStream.map_position?_read settings [] script
    have hend := Position.at?_byteSize script.prefix_rfl
    rw [Text.byteSize_nil, List.nil_append] at hread
    unfold TokenStream.text at htext
    rw [List.map_append, hread, Token.placed_append, List.map_append, List.nil_append, htext]
    simp [Token.placed, Token.position?, Token.eof, hend]
  · apply Token.pairwise_placed
    intro t ht
    obtain ⟨w, hlead⟩ := hchain.exists_leads t ht
    exact hlead.1

open Position Bytes

/-- A script is cut at two offsets between characters, of which the first one is not behind the
other. -/
theorem exists_cuts {script : Text} {a b : Nat} (hab : a ≤ b)
    (ha : isBoundary script.utf8 a = true) (hb : isBoundary script.utf8 b = true) :
    ∃ s between rest : Text, script = s ++ between ++ rest ∧ s.byteSize = a ∧
      s.byteSize + between.byteSize = b := by
  obtain ⟨s, hs, rfl⟩ := isBoundary_utf8_iff.mp ha
  obtain ⟨t, ht, rfl⟩ := isBoundary_utf8_iff.mp hb
  obtain ⟨between, rfl⟩ := Text.prefix_of_byteSize_le hs ht hab
  obtain ⟨rest, rfl⟩ := ht
  exact ⟨s, between, rest, rfl, rfl, (Text.byteSize_append s between).symm⟩

/-- The place of an offset is the one that the text from any earlier offset leads to, one character
at a time. So later offsets have later places, no two offsets share one, and the places listed for
the tokens of a scan are those of their starts and increase from each token to the next. Counting
from the bytes of the script gives the same places. -/
theorem positions_compose (script : Text) :
    (∀ a b, a ≤ b → isBoundary script.utf8 a = true → isBoundary script.utf8 b = true →
      ∃ p between, at? script a = some p ∧ script.slice? a b = some between ∧
        at? script b = some (between.foldl next p) ∧
        (a < b → p.Before (between.foldl next p))) ∧
    (∀ a b, isBoundary script.utf8 a = true → isBoundary script.utf8 b = true →
      at? script a = at? script b → a = b) ∧
    (∀ settings ts, scan settings script = .ok ts →
      ts.map (·.position? script) = (Token.placed [] ts).map (fun p => some p.1) ∧
        (Token.placed [] ts).Pairwise fun p q => p.1.Before q.1) ∧
    ∀ offset, lineColumn? script.utf8 offset = at? script offset := by
  refine ⟨?_, ?_, fun _ _ hscan => places_of_scan hscan, lineColumn?_utf8 script⟩
  · intro a b hab ha hb
    obtain ⟨s, between, rest, rfl, rfl, rfl⟩ := exists_cuts hab ha hb
    refine ⟨.after s, between, ?_, Text.slice?_append s between rest, ?_, ?_⟩
    · exact at?_byteSize ((List.prefix_append s between).trans (List.prefix_append _ rest))
    · rw [← Text.byteSize_append, at?_byteSize (List.prefix_append _ rest), after_append]
    · intro hlt
      apply before_foldl_next
      rintro rfl
      simp at hlt
  · intro a b ha hb h
    obtain ⟨s, hs, rfl⟩ := isBoundary_utf8_iff.mp ha
    obtain ⟨t, ht, rfl⟩ := isBoundary_utf8_iff.mp hb
    rw [at?_byteSize hs, at?_byteSize ht, Option.some.injEq] at h
    rw [eq_of_after_eq hs ht h]

/-- A letter of two bytes, and an empty line between the two offsets. -/
theorem positions_compose_over_empty_line :
    let script : Text := ['é', ';', '\n', '\n', 'x']
    let tokens : List Token := [⟨.other, ['é'], 0⟩, ⟨.separator, [';'], 2⟩,
      ⟨.whitespace, ['\n', '\n'], 3⟩, ⟨.identifier, ['x'], 5⟩, .eof 6]
    isBoundary script.utf8 2 = true ∧ isBoundary script.utf8 5 = true ∧
      (∃ p between, at? script 2 = some p ∧ script.slice? 2 5 = some between ∧
        at? script 5 = some (between.foldl next p) ∧ p.Before (between.foldl next p)) ∧
      scan .standard script = .ok tokens ∧
      (Token.placed [] tokens).Pairwise fun p q => p.1.Before q.1 := by
  intro script tokens
  obtain ⟨hplaces, -, hscans, -⟩ := positions_compose script
  have hstart : isBoundary script.utf8 2 = true := by decide +kernel
  have hend : isBoundary script.utf8 5 = true := by decide +kernel
  have hscan : scan .standard script = .ok tokens := by decide +kernel
  obtain ⟨p, between, hp, hbetween, hq, hlt⟩ := hplaces 2 5 (by decide) hstart hend
  exact ⟨hstart, hend, ⟨p, between, hp, hbetween, hq, hlt (by decide)⟩, hscan, (hscans _ _ hscan).2⟩

end SqlStatements
