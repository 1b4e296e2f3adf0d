import SqlStatements.Separator

namespace SqlStatements.Separator

/-- One of the pieces at every other place has the property: from the first piece on, or from the
second one if the text starts inside of quotes. -/
def Alternate (p : Text → Prop) (quoted : Bool) (pieces : List Text) : Prop :=
  ∃ i piece, pieces[2 * i + quoted.toNat]? = some piece ∧ p piece

section Alternate
variable {p : Text → Prop} {quoted : Bool} {piece : Text} {pieces : List Text}

theorem alternate_nil : ¬ Alternate p quoted [] := by
  rintro ⟨i, piece, hi, -⟩
  simp at hi

theorem alternate_cons :
    Alternate p quoted (piece :: pieces) ↔
      quoted = false ∧ p piece ∨ Alternate p (!quoted) pieces := by
  unfold Alternate
  cases quoted with
  | false =>
    constructor
    · rintro ⟨i, found, hi, hp⟩
      cases i with
      | zero =>
        obtain rfl : piece = found := by simpa using hi
        exact .inl ⟨rfl, hp⟩
      | succ i => exact .inr ⟨i, found, hi, hp⟩
    · rintro (⟨-, hp⟩ | ⟨i, found, hi, hp⟩)
      · exact ⟨0, piece, rfl, hp⟩
      · exact ⟨i + 1, found, hi, hp⟩
  | true => simp

end Alternate

section Pieces
variable {α : Type} [BEq α] {quote c : α} {text delimiter piece : List α}
  {pieces : List (List α)}

theorem exists_splitOn_eq (quote : α) (text : List α) :
    ∃ piece pieces, text.splitOn quote = piece :: pieces :=
  List.exists_cons_of_ne_nil (List.splitOnP_ne_nil _ _)

variable [LawfulBEq α]

theorem splitOn_cons_self : (quote :: text).splitOn quote = [] :: text.splitOn quote := by
  simp [List.splitOn, List.splitOnP_cons_eq_if_modifyHead]

theorem splitOn_cons_of_ne (hc : c ≠ quote) (h : text.splitOn quote = piece :: pieces) :
    (c :: text).splitOn quote = (c :: piece) :: pieces := by
  unfold List.splitOn at h ⊢
  rw [List.splitOnP_cons_eq_if_modifyHead, if_neg (by simpa using hc), h, List.modifyHead_cons]

/-- A delimiter without a quote reaches across no cut. -/
theorem prefix_iff_of_splitOn (hq : quote ∉ delimiter)
    (h : text.splitOn quote = piece :: pieces) : delimiter <+: text ↔ delimiter <+: piece := by
  induction text generalizing delimiter piece pieces with
  | nil =>
    cases h
    rfl
  | cons c text ih =>
    cases delimiter with
    | nil => simp
    | cons d delimiter =>
      by_cases hc : c = quote
      · subst hc
        rw [splitOn_cons_self] at h
        cases h
        have hd : d ≠ c := fun he => hq (by simp [he])
        simp [List.cons_prefix_cons, hd]
      · obtain ⟨front, back, htext⟩ := exists_splitOn_eq quote text
        rw [splitOn_cons_of_ne hc htext] at h
        cases h
        have hrest := ih (fun hm => hq (List.mem_cons_of_mem d hm)) htext
        rw [List.cons_prefix_cons, List.cons_prefix_cons, hrest]

end Pieces

/-- Reading on with the flag for quotes is reading the pieces between the quotes, every other one
of which lies outside of them. -/
theorem occurs_iff_alternate {delimiter text : Text} {quoted : Bool} (hne : delimiter ≠ [])
    (hq : '\x27' ∉ delimiter) :
    occurs delimiter quoted text = true ↔
      Alternate (delimiter <:+: ·) quoted (text.splitOn '\x27') := by
  induction text generalizing quoted with
  | nil => simp [occurs, alternate_cons, alternate_nil, hne]
  | cons c text ih =>
    rw [occurs, Bool.or_eq_true, Bool.and_eq_true, List.isPrefixOf_iff_prefix, Bool.not_eq_true',
      ih]
    by_cases hc : c = '\x27'
    · -- The piece before the quote is empty, and no delimiter begins with the quote.
      subst hc
      have hp : ¬ delimiter <+: '\x27' :: text := by
        rw [prefix_iff_of_splitOn hq splitOn_cons_self]
        simpa using hne
      have hi : ¬ delimiter <:+: [] := by simpa using hne
      simp [splitOn_cons_self, alternate_cons, hp, hi]
    · obtain ⟨piece, pieces, hs⟩ := exists_splitOn_eq '\x27' text
      have hcons := splitOn_cons_of_ne hc hs
      rw [if_neg hc, hcons, hs, alternate_cons, alternate_cons, prefix_iff_of_splitOn hq hcons,
        List.infix_cons_iff, and_or_left, or_assoc]

/-- A script uses a delimiter exactly when it stands in one of the pieces outside of quotes: cut
at the quotes, the script has them at the even places. -/
theorem isUsed_iff_infix_piece {script delimiter : Text} (hne : delimiter ≠ [])
    (hq : '\x27' ∉ delimiter) :
    isUsed script delimiter = true ↔
      ∃ i piece, (script.splitOn '\x27')[2 * i]? = some piece ∧ delimiter <:+: piece := by
  have he : delimiter.isEmpty = false := by simpa using hne
  rw [isUsed, he, Bool.not_false, Bool.true_and, occurs_iff_alternate hne hq]
  rfl

/-- A delimiter of two characters, one of them with more than one byte, that stands inside of quotes
before it stands outside of them. -/
theorem isUsed_iff_infix_piece_behind_quotes :
    let script := "a'é;'b'c'dé;".toList
    "é;".toList ≠ [] ∧ '\x27' ∉ "é;".toList ∧
      script.splitOn '\x27' = [['a'], "é;".toList, ['b'], ['c'], "dé;".toList] ∧
      isUsed script "é;".toList = true := by
  intro script
  have hne : "é;".toList ≠ [] := by decide
  have hq : '\x27' ∉ "é;".toList := by decide
  have hs : script.splitOn '\x27' = [['a'], "é;".toList, ['b'], ['c'], "dé;".toList] := by decide
  refine ⟨hne, hq, hs, (isUsed_iff_infix_piece hne hq).mpr ⟨2, "dé;".toList, ?_, ?_⟩⟩
  · rw [hs]
    rfl
  · exact ⟨['d'], [], rfl⟩

end SqlStatements.Separator
