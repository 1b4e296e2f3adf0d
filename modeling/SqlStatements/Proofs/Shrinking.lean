import SqlStatements.Proofs.Streams

namespace SqlStatements

namespace Lexeme

/-- What an open literal has just read: nothing that matters, the escape, or a quote that
closes the literal unless it is doubled. -/
inductive Wait where
  | nothing
  | escaped
  | doubled

def StaysOpen (q : Char) : Wait → Text → Prop
  | .nothing, [] => True
  | .escaped, [] => True
  | .doubled, [] => False
  | .nothing, c :: t =>
    if c = '\\' then StaysOpen q .escaped t
    else if c = q then StaysOpen q .doubled t
    else StaysOpen q .nothing t
  | .escaped, _ :: t => StaysOpen q .nothing t
  | .doubled, c :: t => c = q ∧ StaysOpen q .nothing t

theorem closingQuote?_eq_none_iff {q : Char} {t : Text} :
    closingQuote? '\\' q t = none ↔ StaysOpen q .nothing t := by
  fun_induction closingQuote? '\\' q t <;> simp_all [StaysOpen]

end Lexeme

open Lexeme

/-- Every second text is what is left of the first one when its end is cut off, or when
parts of it are replaced by single blanks. No part begins with a quote, and none ends so
that the text after it would read differently. -/
inductive Text.Shrinks : Text → Text → Prop where
  | cut {w : Text} : (∀ c ∈ w.head?, c ∉ quotes) → Shrinks w []
  | keep {w v : Text} (c : Char) : Shrinks w v → Shrinks (c :: w) (c :: v)
  | gap {g w v : Text} {c : Char} : isAsciiBlank c = true → g ≠ [] →
      (∀ d ∈ g.head?, d ∉ quotes) → (∀ d ∈ g.getLast?, d ∉ quotes ∧ d ≠ '\\') →
      Shrinks w v → Shrinks (g ++ w) (c :: v)

theorem not_mem_quotes_of_isBlank {c : Char} (h : isBlank c = true) : c ∉ quotes ∧ c ≠ '\\' := by
  constructor
  · intro hq
    rw [isBlank_of_mem_quotes hq] at h
    cases h
  · intro he
    rw [he] at h
    exact absurd h (by decide)

namespace Lexeme.StaysOpen
variable {q : Char}

/-- Text that ends with neither a quote nor the escape leaves an open literal waiting for
nothing. -/
theorem of_append {g w : Text} {state : Wait} (hq : q ∈ quotes) (hg : g ≠ [])
    (hlast : ∀ d ∈ g.getLast?, d ∉ quotes ∧ d ≠ '\\') (h : StaysOpen q state (g ++ w)) :
    StaysOpen q .nothing w := by
  induction g generalizing state with
  | nil => exact absurd rfl hg
  | cons d g ih =>
    by_cases hne : g = []
    · subst hne
      obtain ⟨hd, he⟩ := hlast d (by simp)
      have hdq : d ≠ q := fun h => hd (h ▸ hq)
      cases state with
      | nothing => simpa [StaysOpen, he, hdq] using h
      | escaped => exact h
      | doubled => exact absurd h.1 hdq
    have hrest : ∀ e ∈ g.getLast?, e ∉ quotes ∧ e ≠ '\\' := by
      intro e he
      apply hlast
      rw [List.getLast?_cons, Option.mem_def.mp he]
      rfl
    cases state with
    | nothing =>
      rw [List.cons_append, StaysOpen] at h
      split at h
      · exact ih hne hrest h
      split at h
      · exact ih hne hrest h
      · exact ih hne hrest h
    | escaped => exact ih hne hrest h
    | doubled => exact ih hne hrest h.2

/-- A quote without its second one stays without it when the text shrinks. -/
theorem shrinks {w v : Text} {state : Wait} (hq : q ∈ quotes) (hs : w.Shrinks v)
    (h : StaysOpen q state w) : StaysOpen q state v := by
  induction hs generalizing state with
  | @cut w hw =>
    cases state with
    | nothing => trivial
    | escaped => trivial
    | doubled =>
      cases w with
      | nil => exact h
      | cons c w => exact hw c rfl (h.1 ▸ hq)
  | keep c _ ih =>
    cases state with
    | nothing =>
      rw [StaysOpen] at h ⊢
      split
      · rename_i hc
        rw [if_pos hc] at h
        exact ih h
      rename_i hc
      rw [if_neg hc] at h
      split
      · rename_i hcq
        rw [if_pos hcq] at h
        exact ih h
      · rename_i hcq
        rw [if_neg hcq] at h
        exact ih h
    | escaped => exact ih h
    | doubled => exact ⟨h.1, ih h.2⟩
  | @gap g w v c hc hg hfirst hlast _ ih =>
    have hrest : StaysOpen q .nothing v := by
      apply ih
      exact of_append hq hg hlast h
    obtain ⟨hcq, hce⟩ := not_mem_quotes_of_isBlank (isBlank_of_isAsciiBlank hc)
    cases state with
    | nothing =>
      have hne : c ≠ q := fun h => hcq (h ▸ hq)
      simpa [StaysOpen, hce, hne] using hrest
    | escaped => exact hrest
    | doubled =>
      obtain ⟨d, g', rfl⟩ := List.exists_cons_of_ne_nil hg
      exact absurd (h.1 ▸ hq) (hfirst d rfl)

end Lexeme.StaysOpen

namespace Text.Shrinks
variable {w v : Text}

theorem append_left (h : Shrinks w v) (x : Text) : Shrinks (x ++ w) (x ++ v) := by
  induction x with
  | nil => exact h
  | cons c x ih => exact .keep c ih

/-- A text that has shrunk begins with no word that was not there. -/
theorem of_prefix (h : Shrinks w v) {p : Text} (hp : ∀ c ∈ p, isAsciiBlank c = false)
    (hv : p <+: v) : p <+: w := by
  induction h generalizing p with
  | cut => rw [List.prefix_nil.mp hv]; exact List.nil_prefix
  | keep c _ ih =>
    cases p with
    | nil => exact List.nil_prefix
    | cons d p =>
      obtain ⟨rfl, hrest⟩ := List.cons_prefix_cons.mp hv
      exact List.cons_prefix_cons.mpr ⟨rfl, ih (fun c hc => hp c (by simp [hc])) hrest⟩
  | @gap g w v c hc _ _ _ _ _ =>
    cases p with
    | nil => exact List.nil_prefix
    | cons d p =>
      obtain ⟨rfl, -⟩ := List.cons_prefix_cons.mp hv
      rw [hp d (by simp)] at hc
      cases hc

theorem of_head (h : Shrinks w v) {c : Char} (hc : c ∈ v.head?) (hb : isBlank c = false) :
    c ∈ w.head? := by
  have ha := isAsciiBlank_eq_false hb
  obtain ⟨cs, rfl⟩ := List.head?_eq_some_iff.mp hc
  obtain ⟨ds, hd⟩ := h.of_prefix (p := [c]) (by simpa using ha) ⟨cs, rfl⟩
  rw [← hd]
  rfl

theorem literal?_eq_none (h : Shrinks w v) {word : Text}
    (hword : word.any isAsciiBlank = false) (hw : literal? word w = none) :
    literal? word v = none := by
  cases hv : literal? word v with
  | none => rfl
  | some n =>
    obtain ⟨hne, hp, -⟩ := literal?_eq_some_iff.mp hv
    have hblank : ∀ c ∈ word, isAsciiBlank c = false := by simpa using hword
    rw [literal?_eq_some_iff.mpr ⟨hne, h.of_prefix hblank hp, rfl⟩] at hw
    cases hw

theorem dollarTag?_eq_none (h : Shrinks w v) (hw : dollarTag? w = none) :
    dollarTag? v = none := by
  cases hv : dollarTag? v with
  | none => rfl
  | some tag =>
    obtain ⟨htag, hp⟩ := dollarTag?_eq_some_iff.mp hv
    have hblank : ∀ c ∈ tag, isAsciiBlank c = false :=
      fun c hc => isAsciiBlank_eq_false (isBlank_of_isWordPart (htag.isWordPart c hc))
    rw [dollarTag?_eq_some_iff.mpr ⟨htag, h.of_prefix hblank hp⟩] at hw
    cases hw

theorem quotedString?_eq_none (h : Shrinks w v) (hw : quotedString? w = none) :
    quotedString? v = none := by
  cases h with
  | cut => rfl
  | @keep w v c h =>
    rw [quotedString?_cons] at hw ⊢
    split
    · rename_i hc
      rw [if_pos hc, Option.map_eq_none_iff, closingQuote?_eq_none_iff] at hw
      rw [Option.map_eq_none_iff, closingQuote?_eq_none_iff]
      exact hw.shrinks hc h
    · rfl
  | gap hc =>
    rw [quotedString?_cons,
      if_neg (not_mem_quotes_of_isBlank (isBlank_of_isAsciiBlank hc)).1]

end Text.Shrinks
end SqlStatements
