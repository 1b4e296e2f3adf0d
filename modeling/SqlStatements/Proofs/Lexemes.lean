import SqlStatements.Lexeme.Quote

namespace SqlStatements.Lexeme

theorem length_takeWhile_append_eq_iff {p : Char → Bool} {x w : Text} :
    ((x ++ w).takeWhile p).length = x.length ↔
      (∀ c ∈ x, p c = true) ∧ ∀ c ∈ w.head?, p c = false := by
  induction x with
  | nil =>
    cases w with
    | nil => simp
    | cons d w => by_cases hd : p d <;> simp [hd]
  | cons c x ih => by_cases hc : p c <;> simp [hc, ih]

theorem literal?_eq_some_iff {literal rest : Text} {n : Nat} :
    literal? literal rest = some n ↔ literal ≠ [] ∧ literal <+: rest ∧ literal.length = n := by
  unfold literal?
  by_cases hne : literal = []
  · simp [hne]
  · by_cases hp : literal <+: rest <;> simp [hne, hp]

theorem literal?_eq_none_of_head {literal w : Text} {c : Char} (h : literal.head? ≠ some c) :
    literal? literal (c :: w) = none := by
  cases hl : literal? literal (c :: w) with
  | none => rfl
  | some n =>
    obtain ⟨hne, hp, -⟩ := literal?_eq_some_iff.mp hl
    obtain ⟨d, ds, rfl⟩ := List.exists_cons_of_ne_nil hne
    obtain ⟨rfl, -⟩ := List.cons_prefix_cons.mp hp
    exact absurd rfl h

theorem literal?_append_iff {literal x w : Text} :
    literal? literal (x ++ w) = some x.length ↔ literal ≠ [] ∧ x = literal := by
  rw [literal?_eq_some_iff]
  constructor
  · rintro ⟨hne, hp, hl⟩
    exact ⟨hne, (List.prefix_of_prefix_length_le (List.prefix_append x w) hp
      (Nat.le_of_eq hl.symm)).eq_of_length hl.symm⟩
  · rintro ⟨hne, rfl⟩
    exact ⟨hne, List.prefix_append _ _, rfl⟩

theorem identifier?_append_iff {x w : Text} :
    identifier? (x ++ w) = some x.length ↔
      ∃ c cs, x = c :: cs ∧ c.isAlpha = true ∧ (∀ d ∈ cs, isWordPart d = true) ∧
        ∀ d ∈ w.head?, isWordPart d = false := by
  cases x with
  | nil =>
    cases w with
    | nil => simp [identifier?]
    | cons d w => by_cases hd : d.isAlpha <;> simp [identifier?, hd]
  | cons c cs =>
    by_cases hc : c.isAlpha
    · simp only [identifier?, hc, List.cons_append, if_true, List.length_cons, Option.some.injEq,
        Nat.add_right_cancel_iff, length_takeWhile_append_eq_iff]
      constructor
      · intro h
        exact ⟨c, cs, rfl, hc, h⟩
      · rintro ⟨d, ds, he, -, h⟩
        cases he
        exact h
    · simp [identifier?, hc]

theorem identifier?_cons_eq_none_iff {c : Char} {t : Text} :
    identifier? (c :: t) = none ↔ c.isAlpha = false := by
  simp [identifier?]

theorem blanks?_cons_eq_none_iff {c : Char} {t : Text} :
    blanks? (c :: t) = none ↔ isAsciiBlank c = false := by
  simp [blanks?]

theorem blanks?_append_iff {x w : Text} :
    blanks? (x ++ w) = some x.length ↔
      x ≠ [] ∧ (∀ c ∈ x, isAsciiBlank c = true) ∧ ∀ c ∈ w.head?, isAsciiBlank c = false := by
  cases x with
  | nil =>
    cases w with
    | nil => simp [blanks?]
    | cons d w => by_cases hd : isAsciiBlank d <;> simp [blanks?, hd]
  | cons c cs =>
    by_cases hc : isAsciiBlank c
    · simp [blanks?, hc, length_takeWhile_append_eq_iff]
    · simp [blanks?, hc]

theorem character?_append_iff {x w : Text} :
    character? (x ++ w) = some x.length ↔ ∃ c, x = [c] := by
  cases x with
  | nil => cases w <;> simp [character?]
  | cons c cs => cases cs <;> simp [character?]

/-- A line ends with all the line breaks that follow it, or with the text. -/
theorem lineLength_append_iff {x w : Text} :
    lineLength (x ++ w) = x.length ↔
      ∃ body breaks, x = body ++ breaks ∧ (∀ c ∈ body, isLineBreak c = false) ∧
        (∀ c ∈ breaks, isLineBreak c = true) ∧ (breaks = [] → w = []) ∧
        ∀ c ∈ w.head?, isLineBreak c = false := by
  induction x with
  | nil =>
    cases w with
    | nil => exact ⟨fun _ => ⟨[], [], rfl, by simp⟩, fun _ => rfl⟩
    | cons d w => by_cases hd : isLineBreak d <;> simp [lineLength, hd]
  | cons c x ih =>
    by_cases hc : isLineBreak c
    · have hl : lineLength (c :: x ++ w) = ((x ++ w).takeWhile isLineBreak).length + 1 := by
        simp [lineLength, hc]
      rw [hl, List.length_cons, Nat.add_right_cancel_iff, length_takeWhile_append_eq_iff]
      constructor
      · rintro ⟨hx, hw⟩
        exact ⟨[], c :: x, rfl, by simp, by simpa [hc] using hx, by simp, hw⟩
      · rintro ⟨body, breaks, he, hb, hk, -, hw⟩
        cases body with
        | nil =>
          rw [List.nil_append] at he
          subst he
          exact ⟨fun d hd => hk d (by simp [hd]), hw⟩
        | cons d body =>
          obtain ⟨rfl, -⟩ := List.cons.inj he
          have := hb c (by simp)
          rw [hc] at this
          cases this
    · have hf : isLineBreak c = false := by simpa using hc
      have hl : lineLength (c :: x ++ w) = lineLength (x ++ w) + 1 := by
        simp [lineLength, hf]
        omega
      rw [hl, List.length_cons, Nat.add_right_cancel_iff, ih]
      constructor
      · rintro ⟨body, breaks, rfl, hb, hk, hn, hw⟩
        exact ⟨c :: body, breaks, rfl, by simpa [hf] using hb, hk, hn, hw⟩
      · rintro ⟨body, breaks, he, hb, hk, hn, hw⟩
        cases body with
        | nil =>
          rw [List.nil_append] at he
          have := hk c (by simp [← he])
          rw [hf] at this
          cases this
        | cons d body =>
          obtain ⟨rfl, rfl⟩ := List.cons.inj he
          exact ⟨body, breaks, rfl, fun d hd => hb d (by simp [hd]), hk, hn, hw⟩

theorem lineComment?_append_iff {opener x w : Text} :
    lineComment? opener (x ++ w) = some x.length ↔
      opener ≠ [] ∧ ∃ line, x = opener ++ line ∧ lineLength (line ++ w) = line.length := by
  constructor
  · intro h
    obtain ⟨start, hs, hl⟩ := Option.map_eq_some_iff.mp h
    obtain ⟨hne, hp, rfl⟩ := literal?_eq_some_iff.mp hs
    obtain ⟨line, rfl⟩ := List.prefix_of_prefix_length_le hp (List.prefix_append x w) (by omega)
    refine ⟨hne, line, rfl, ?_⟩
    simpa using hl
  · rintro ⟨hne, line, rfl, hl⟩
    refine Option.map_eq_some_iff.mpr ⟨opener.length, ?_, ?_⟩
    · exact literal?_eq_some_iff.mpr ⟨hne, by simp, rfl⟩
    · simp [hl]

theorem indexOf?_nil (wanted : Text) :
    Text.indexOf? wanted [] = if wanted = [] then some 0 else none := by
  simp [Text.indexOf?]

/-- What is found in a text that goes on is found in the text if it fits into it. -/
theorem indexOf?_append_iff {wanted x w : Text} {n : Nat} :
    Text.indexOf? wanted (x ++ w) = some n ∧ n + wanted.length ≤ x.length ↔
      Text.indexOf? wanted x = some n := by
  constructor
  · rintro ⟨h, hn⟩
    induction x generalizing n with
    | nil =>
      obtain ⟨rfl, hw⟩ : n = 0 ∧ wanted.length = 0 := by simpa using hn
      rw [indexOf?_nil, if_pos (List.length_eq_zero_iff.mp hw)]
    | cons c x ih =>
      rw [List.cons_append, Text.indexOf?] at h
      rw [Text.indexOf?]
      split at h
      · rename_i hp
        cases h
        have hx := List.prefix_of_prefix_length_le (List.isPrefixOf_iff_prefix.mp hp)
          (List.prefix_append (c :: x) w) (by simpa using hn)
        rw [if_pos (List.isPrefixOf_iff_prefix.mpr hx)]
      · rename_i hp
        obtain ⟨m, hm, rfl⟩ := Option.map_eq_some_iff.mp h
        have hx : ¬ wanted.isPrefixOf (c :: x) = true := by
          intro hx
          apply hp
          exact List.isPrefixOf_iff_prefix.mpr
            ((List.isPrefixOf_iff_prefix.mp hx).trans (List.prefix_append (c :: x) w))
        rw [List.length_cons] at hn
        rw [if_neg hx, ih hm (by omega)]
        rfl
  · intro h
    refine ⟨?_, indexOf?_add_length_le h⟩
    induction x generalizing n with
    | nil =>
      rw [indexOf?_nil] at h
      split at h
      · rename_i hw
        cases h
        subst hw
        cases w <;> simp [Text.indexOf?]
      · cases h
    | cons c x ih =>
      have hl := indexOf?_add_length_le h
      rw [Text.indexOf?] at h
      rw [List.cons_append, Text.indexOf?]
      split at h
      · rename_i hp
        have hx : wanted.isPrefixOf (c :: (x ++ w)) = true := List.isPrefixOf_iff_prefix.mpr
          ((List.isPrefixOf_iff_prefix.mp hp).trans (List.prefix_append (c :: x) w))
        rw [if_pos hx]
        exact h
      · rename_i hp
        obtain ⟨m, hm, rfl⟩ := Option.map_eq_some_iff.mp h
        have hx : ¬ wanted.isPrefixOf (c :: (x ++ w)) = true := by
          intro hx
          apply hp
          rw [List.length_cons] at hl
          exact List.isPrefixOf_iff_prefix.mpr (List.prefix_of_prefix_length_le
            (List.isPrefixOf_iff_prefix.mp hx) (List.prefix_append (c :: x) w) (by
              have := indexOf?_add_length_le hm
              simp only [List.length_cons]
              omega))
        rw [if_neg hx, ih hm]
        rfl

/-- What is found stands where it is found. -/
theorem prefix_drop_of_indexOf? {wanted text : Text} {n : Nat}
    (h : Text.indexOf? wanted text = some n) : wanted <+: text.drop n := by
  induction text generalizing n with
  | nil =>
    rw [indexOf?_nil] at h
    split at h
    · rename_i hw
      simp [hw]
    · cases h
  | cons c cs ih =>
    rw [Text.indexOf?] at h
    split at h
    · rename_i hp
      cases h
      exact List.isPrefixOf_iff_prefix.mp hp
    · obtain ⟨m, hm, rfl⟩ := Option.map_eq_some_iff.mp h
      exact ih hm

/-- What is found at the end of a text is its end. -/
theorem suffix_of_indexOf? {wanted text : Text} {n : Nat}
    (h : Text.indexOf? wanted text = some n) (hl : n + wanted.length = text.length) :
    wanted <:+ text := by
  have hp := prefix_drop_of_indexOf? h
  have he : wanted = text.drop n := hp.eq_of_length (by rw [List.length_drop]; omega)
  rw [he]
  exact List.drop_suffix n text

theorem blockComment?_eq_none_iff {opener closer rest : Text} :
    blockComment? opener closer rest = .ok none ↔ literal? opener rest = none := by
  unfold blockComment?
  cases literal? opener rest with
  | none => simp
  | some start =>
    dsimp only
    cases Text.indexOf? closer (rest.drop start) <;> simp

theorem blockComment?_append_iff {opener closer x w : Text} :
    blockComment? opener closer (x ++ w) = .ok (some x.length) ↔
      opener ≠ [] ∧ ∃ body n, x = opener ++ body ∧ Text.indexOf? closer body = some n ∧
        n + closer.length = body.length := by
  unfold blockComment?
  constructor
  · intro h
    split at h
    · cases h
    · rename_i start hs
      obtain ⟨hne, hp, rfl⟩ := literal?_eq_some_iff.mp hs
      split at h
      · rename_i n hn
        have hl : opener.length + n + closer.length = x.length := by simpa using h
        obtain ⟨body, rfl⟩ := List.prefix_of_prefix_length_le hp (List.prefix_append x w) (by omega)
        rw [List.append_assoc, List.drop_left] at hn
        rw [List.length_append] at hl
        exact ⟨hne, body, n, rfl, indexOf?_append_iff.mp ⟨hn, by omega⟩, by omega⟩
      · cases h
  · rintro ⟨hne, body, n, rfl, hn, hl⟩
    have hs : literal? opener (opener ++ body ++ w) = some opener.length :=
      literal?_eq_some_iff.mpr ⟨hne, by simp, rfl⟩
    have hb : Text.indexOf? closer ((opener ++ body ++ w).drop opener.length) = some n := by
      rw [List.append_assoc, List.drop_left]
      exact (indexOf?_append_iff.mpr hn).1
    simp only [hs, hb, List.length_append]
    rw [← hl, Nat.add_assoc]

section Quotes
variable {α : Type} [BEq α] [LawfulBEq α] {escape quote : α}

omit [LawfulBEq α] in
theorem closingQuote?_ne_zero (b : List α) : closingQuote? escape quote b ≠ some 0 := by
  fun_induction closingQuote? escape quote b <;> simp_all

theorem closingQuote?_cons_of_ne {c : α} (he : c ≠ escape) (hq : c ≠ quote) (t : List α) :
    closingQuote? escape quote (c :: t) = (closingQuote? escape quote t).map (· + 1) := by
  cases t <;> simp [closingQuote?, he, hq]

theorem closingQuote?_escaped (c : α) (t : List α) :
    closingQuote? escape quote (escape :: c :: t) =
      (closingQuote? escape quote t).map (· + 2) := by
  simp [closingQuote?]

theorem closingQuote?_doubled (hq : quote ≠ escape) (t : List α) :
    closingQuote? escape quote (quote :: quote :: t) =
      (closingQuote? escape quote t).map (· + 2) := by
  simp [closingQuote?, hq]

theorem closingQuote?_closed (hq : quote ≠ escape) {t : List α} (h : t.head? ≠ some quote) :
    closingQuote? escape quote (quote :: t) = some 1 := by
  cases t with
  | nil => simp [closingQuote?, hq]
  | cons c t =>
    have hc : c ≠ quote := by simpa using h
    simp [closingQuote?, hq, hc]

/-- A literal ends with a quote that no second one follows. -/
theorem closingQuote?_append_iff {b w : List α} :
    closingQuote? escape quote (b ++ w) = some b.length ↔
      closingQuote? escape quote b = some b.length ∧ w.head? ≠ some quote := by
  fun_induction closingQuote? escape quote b with
  | case1 => simp [closingQuote?_ne_zero]
  | case2 c hc =>
    cases w with
    | nil => simp [closingQuote?, hc]
    | cons d w => simp [closingQuote?, hc]
  | case3 c hc hq =>
    cases w with
    | nil => simp [closingQuote?, hc, hq]
    | cons d w => by_cases hd : d == quote <;> simp_all [closingQuote?]
  | case4 c hc hq =>
    cases w with
    | nil => simp [closingQuote?, hc, hq]
    | cons d w => simp [closingQuote?, hc, hq, closingQuote?_ne_zero]
  | case5 c d rest hc ih => simp [closingQuote?, hc, ih]
  | case6 c d rest hc hq hd ih => simp [closingQuote?, hc, hq, hd, ih]
  | case7 c d rest hc hq hd => simp [closingQuote?, hc, hq, hd]
  | case8 c d rest hc hq ih =>
    simp only [List.cons_append, List.length_cons] at ih ⊢
    simp [closingQuote?, hc, hq, ih]

theorem getLast?_of_closingQuote? {b : List α} (h : closingQuote? escape quote b = some b.length) :
    b.getLast? = some quote := by
  fun_induction closingQuote? escape quote b with
  | case1 => cases h
  | case2 c hc => cases h
  | case3 c hc hq => simpa using hq
  | case4 c hc hq => cases h
  | case5 c d rest hc ih =>
    have hr : closingQuote? escape quote rest = some rest.length := by simpa using h
    simp [List.getLast?_cons, ih hr]
  | case6 c d rest hc hq hd ih =>
    have hr : closingQuote? escape quote rest = some rest.length := by simpa using h
    simp [List.getLast?_cons, ih hr]
  | case7 c d rest hc hq hd => simp at h
  | case8 c d rest hc hq ih =>
    have hr : closingQuote? escape quote (d :: rest) = some (d :: rest).length := by simpa using h
    rw [List.getLast?_cons, ih hr]
    rfl

end Quotes

theorem quotedString?_cons (c : Char) (cs : Text) :
    quotedString? (c :: cs) =
      if c ∈ quotes then (closingQuote? '\\' c cs).map (· + 1) else none := by
  unfold quotedString? quotes quoted?
  grind

theorem quotedString?_append_iff {x w : Text} :
    quotedString? (x ++ w) = some x.length ↔
      ∃ q ∈ quotes, ∃ b, x = q :: b ∧ closingQuote? '\\' q b = some b.length ∧
        w.head? ≠ some q := by
  cases x with
  | nil =>
    cases w with
    | nil => simp [quotedString?, quoted?, quotes]
    | cons d w => by_cases hd : d ∈ quotes <;> simp [quotedString?_cons, hd]
  | cons c cs =>
    rw [List.cons_append, quotedString?_cons]
    constructor
    · intro h
      split at h
      · rename_i hc
        have hl : closingQuote? '\\' c (cs ++ w) = some cs.length := by simpa using h
        obtain ⟨hb, hw⟩ := closingQuote?_append_iff.mp hl
        exact ⟨c, hc, cs, rfl, hb, hw⟩
      · cases h
    · rintro ⟨q, hq, b, he, hb, hw⟩
      cases he
      rw [if_pos hq, closingQuote?_append_iff.mpr ⟨hb, hw⟩]
      rfl

/-- An opening tag: a word, possibly empty, between two dollar signs. -/
def IsTag (tag : Text) : Prop :=
  ∃ word, (∀ d ∈ word, (d.isAlphanum || d == '_') = true) ∧ tag = '$' :: word ++ ['$']

theorem IsTag.isWordPart {tag : Text} (h : IsTag tag) : ∀ c ∈ tag, isWordPart c = true := by
  obtain ⟨word, hword, rfl⟩ := h
  intro c hc
  simp only [List.mem_append, List.mem_cons, List.not_mem_nil, or_false] at hc
  rcases hc with (rfl | hc) | rfl
  · rfl
  · simp [Lexeme.isWordPart, hword c hc]
  · rfl

theorem dollarTag?_eq_some_iff {rest tag : Text} :
    dollarTag? rest = some tag ↔ IsTag tag ∧ tag <+: rest := by
  cases rest with
  | nil =>
    simp only [dollarTag?, List.prefix_nil, reduceCtorEq, false_iff]
    rintro ⟨⟨word, -, rfl⟩, h⟩
    cases h
  | cons c cs =>
    constructor
    · intro h
      simp only [dollarTag?] at h
      split at h
      · rename_i hc
        obtain rfl : c = '$' := by simpa using hc
        split at h
        · rename_i hd
          cases h
          refine ⟨⟨_, List.all_eq_true.mp List.all_takeWhile, rfl⟩, ?_⟩
          obtain ⟨tail, ht⟩ := List.head?_eq_some_iff.mp (beq_iff_eq.mp hd)
          have hw := List.prefix_iff_eq_take.mp
            (List.takeWhile_prefix (fun d : Char => d.isAlphanum || d == '_') (l := cs))
          have hcs := List.take_append_drop
            (cs.takeWhile fun d => d.isAlphanum || d == '_').length cs
          rw [← hw, ht] at hcs
          exact ⟨tail, by simpa using hcs⟩
        · cases h
      · cases h
    · rintro ⟨⟨word, hw, rfl⟩, tail, ht⟩
      simp only [List.cons_append, List.append_assoc, List.nil_append, List.cons.injEq] at ht
      obtain ⟨rfl, rfl⟩ := ht
      have hstop : ('$' :: tail).takeWhile (fun d : Char => d.isAlphanum || d == '_') = [] := rfl
      have hword : (word ++ '$' :: tail).takeWhile (fun d : Char => d.isAlphanum || d == '_') =
          word := by
        rw [List.takeWhile_append_of_pos hw, hstop, List.append_nil]
      simp [dollarTag?, hword]

theorem dollarQuote?_eq_none_iff {rest : Text} :
    dollarQuote? rest = .ok none ↔ dollarTag? rest = none := by
  unfold dollarQuote?
  cases dollarTag? rest with
  | none => simp
  | some tag =>
    dsimp only
    cases Text.indexOf? tag (rest.drop tag.length) <;> simp

theorem dollarQuote?_append_iff {x w : Text} :
    dollarQuote? (x ++ w) = .ok (some x.length) ↔
      ∃ tag body n, IsTag tag ∧ x = tag ++ body ∧ Text.indexOf? tag body = some n ∧
        n + tag.length = body.length := by
  unfold dollarQuote?
  constructor
  · intro h
    split at h
    · cases h
    · rename_i tag ht
      obtain ⟨htag, hp⟩ := dollarTag?_eq_some_iff.mp ht
      split at h
      · rename_i n hn
        have hl : tag.length + n + tag.length = x.length := by simpa using h
        obtain ⟨body, rfl⟩ := List.prefix_of_prefix_length_le hp (List.prefix_append x w) (by omega)
        rw [List.append_assoc, List.drop_left] at hn
        rw [List.length_append] at hl
        exact ⟨tag, body, n, htag, rfl, indexOf?_append_iff.mp ⟨hn, by omega⟩, by omega⟩
      · cases h
  · rintro ⟨tag, body, n, htag, rfl, hn, hl⟩
    have ht : dollarTag? (tag ++ body ++ w) = some tag :=
      dollarTag?_eq_some_iff.mpr ⟨htag, by simp⟩
    have hb : Text.indexOf? tag ((tag ++ body ++ w).drop tag.length) = some n := by
      rw [List.append_assoc, List.drop_left]
      exact (indexOf?_append_iff.mpr hn).1
    simp only [ht, hb, List.length_append]
    rw [← hl, Nat.add_assoc]

end SqlStatements.Lexeme
