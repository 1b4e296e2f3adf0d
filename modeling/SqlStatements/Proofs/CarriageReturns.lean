import SqlStatements.Proofs.Positions
import SqlStatements.Proofs.Streams

namespace SqlStatements

theorem isLineBreak_eq_false {c : Char} (h : isBlank c = false) : isLineBreak c = false := by
  cases hb : isLineBreak c with
  | false => rfl
  | true =>
    rw [isBlank_of_isLineBreak hb] at h
    cases h

namespace Text

/-- The text with a carriage return before each line feed. -/
def crlf (t : Text) : Text := t.flatMap fun c => if c = '\n' then ['\r', '\n'] else [c]

/-- The number of characters that the first `n` ones take with the carriage returns. -/
def crlfLength (t : Text) (n : Nat) : Nat := (crlf (t.take n)).length

def Unbroken (t : Text) : Prop := ∀ c ∈ t, isLineBreak c = false

instance (t : Text) : Decidable t.Unbroken :=
  decidable_of_iff (t.all (fun c => !isLineBreak c) = true) (by simp [Unbroken])

@[simp] theorem crlf_nil : crlf [] = [] := rfl

@[simp] theorem crlf_append (s t : Text) : crlf (s ++ t) = crlf s ++ crlf t := List.flatMap_append

@[simp] theorem crlf_lineFeed (t : Text) : crlf ('\n' :: t) = '\r' :: '\n' :: crlf t := rfl

@[simp] theorem crlf_cons {c : Char} (h : c ≠ '\n') (t : Text) : crlf (c :: t) = c :: crlf t := by
  rw [crlf, List.flatMap_cons, if_neg h]
  rfl

theorem crlf_of_notMem {t : Text} (h : '\n' ∉ t) : crlf t = t := by
  induction t with
  | nil => rfl
  | cons c t ih =>
    simp only [List.mem_cons, not_or] at h
    rw [crlf_cons (Ne.symm h.1), ih h.2]

theorem crlf_eq_nil_iff {t : Text} : crlf t = [] ↔ t = [] := by
  cases t with
  | nil => simp
  | cons c t => by_cases hc : c = '\n' <;> simp [hc]

section Length
variable (t : Text) (m n : Nat)

theorem drop_crlf : (crlf t).drop (t.crlfLength n) = crlf (t.drop n) := by
  have h := crlf_append (t.take n) (t.drop n)
  rw [List.take_append_drop] at h
  rw [h]
  exact List.drop_left

theorem crlfLength_add : t.crlfLength (m + n) = t.crlfLength m + Text.crlfLength (t.drop m) n := by
  rw [crlfLength, List.take_add, crlf_append, List.length_append]
  rfl

theorem crlfLength_cons {c : Char} (h : c ≠ '\n') :
    crlfLength (c :: t) (n + 1) = t.crlfLength n + 1 := by
  rw [crlfLength, List.take_succ_cons, crlf_cons h]
  rfl

theorem crlfLength_lineFeed : crlfLength ('\n' :: t) (n + 1) = t.crlfLength n + 2 := rfl

end Length

theorem crlfLength_front {s t : Text} (h : s <+: t) :
    t.crlfLength s.length = (crlf s).length := by
  rw [crlfLength, ← List.prefix_iff_eq_take.mp h]

namespace Unbroken
variable {s t : Text} (h : s.Unbroken)
include h

theorem crlf_eq : crlf s = s := by
  apply crlf_of_notMem
  intro hm
  cases h _ hm

theorem not_prefix_break {c : Char} (hne : s ≠ []) (hc : isLineBreak c = true) (t : Text) :
    ¬ s <+: c :: t := by
  intro hp
  obtain ⟨d, s, rfl⟩ := List.exists_cons_of_ne_nil hne
  have hd := h d List.mem_cons_self
  rw [(List.cons_prefix_cons.mp hp).1, hc] at hd
  cases hd

/-- Text without line breaks begins another text whether or not it has carriage returns. -/
theorem prefix_crlf_iff : s <+: crlf t ↔ s <+: t := by
  induction s generalizing t with
  | nil => simp
  | cons d s ih =>
    cases t with
    | nil => simp
    | cons c t =>
      by_cases hc : c = '\n'
      · subst hc
        exact iff_of_false (h.not_prefix_break (by simp) rfl _) (h.not_prefix_break (by simp) rfl _)
      · rw [crlf_cons hc, List.cons_prefix_cons, List.cons_prefix_cons,
          ih (fun c hm => h c (List.mem_cons_of_mem d hm))]

theorem crlfLength_eq (hp : s <+: t) : t.crlfLength s.length = s.length := by
  rw [crlfLength_front hp, h.crlf_eq]

end Unbroken

theorem drop_length_takeWhile (p : Char → Bool) (t : Text) :
    t.drop (t.takeWhile p).length = t.dropWhile p := by
  induction t with
  | nil => rfl
  | cons c t ih => by_cases hc : p c = true <;> simp [hc, ih]

section While
variable {p : Char → Bool} (hp : p '\r' = p '\n')
include hp

theorem takeWhile_crlf (t : Text) : (crlf t).takeWhile p = crlf (t.takeWhile p) := by
  induction t with
  | nil => rfl
  | cons c t ih =>
    by_cases hc : c = '\n'
    · subst hc
      cases hn : p '\n' <;> simp [hp, hn, ih]
    · cases hn : p c <;> simp [hc, hn, ih]

theorem dropWhile_crlf (t : Text) : (crlf t).dropWhile p = crlf (t.dropWhile p) := by
  induction t with
  | nil => rfl
  | cons c t ih =>
    by_cases hc : c = '\n'
    · subst hc
      cases hn : p '\n' <;> simp [hp, hn, ih]
    · cases hn : p c <;> simp [hc, hn, ih]

theorem length_takeWhile_crlf (t : Text) :
    ((crlf t).takeWhile p).length = t.crlfLength (t.takeWhile p).length := by
  rw [takeWhile_crlf hp, crlfLength_front (List.takeWhile_prefix p)]

end While

end Text

/-- A carriage return takes a column of the line that the line feed behind it ends. -/
theorem Position.foldl_next_crlf (p : Position) (t : Text) :
    (Text.crlf t).foldl next p = t.foldl next p := by
  induction t generalizing p with
  | nil => rfl
  | cons c t ih =>
    by_cases hc : c = '\n'
    · subst hc
      exact ih _
    · rw [Text.crlf_cons hc, List.foldl_cons, List.foldl_cons, ih]

theorem Position.after_crlf (t : Text) : Position.after (Text.crlf t) = Position.after t := by
  have h := after_append [] (Text.crlf t)
  rw [foldl_next_crlf, ← after_append] at h
  exact h

namespace Lexeme
open Text

theorem literal?_crlf {literal : Text} (h : literal.Unbroken) (t : Text) :
    literal? literal (crlf t) = (literal? literal t).map t.crlfLength := by
  unfold literal?
  split
  · rfl
  by_cases hp : literal <+: t
  · rw [if_pos (by simpa [h.prefix_crlf_iff] using hp), if_pos (by simpa using hp),
      Option.map_some, h.crlfLength_eq hp]
  · rw [if_neg (by simpa [h.prefix_crlf_iff] using hp), if_neg (by simpa using hp),
      Option.map_none]

theorem lineLength_crlf (t : Text) : lineLength (crlf t) = t.crlfLength (lineLength t) := by
  have hline : (!isLineBreak '\r') = !isLineBreak '\n' := rfl
  unfold lineLength
  rw [length_takeWhile_crlf hline, dropWhile_crlf hline, length_takeWhile_crlf rfl, crlfLength_add,
    drop_length_takeWhile]

theorem lineComment?_crlf {opener : Text} (h : opener.Unbroken) (t : Text) :
    lineComment? opener (crlf t) = (lineComment? opener t).map t.crlfLength := by
  unfold lineComment?
  rw [literal?_crlf h]
  cases literal? opener t with
  | none => rfl
  | some n => simp only [Option.map_some, drop_crlf, lineLength_crlf, crlfLength_add]

theorem indexOf?_crlf {wanted : Text} (h : wanted.Unbroken) (t : Text) :
    indexOf? wanted (crlf t) = (indexOf? wanted t).map t.crlfLength := by
  induction t with
  | nil =>
    rw [crlf_nil, indexOf?_nil]
    split <;> rfl
  | cons c t ih =>
    by_cases hw : wanted = []
    · subst hw
      cases crlf (c :: t) <;> rfl
    by_cases hc : c = '\n'
    · subst hc
      have hreturn := h.not_prefix_break (c := '\r') hw rfl
      have hfeed := h.not_prefix_break (c := '\n') hw rfl
      simp only [crlf_lineFeed, indexOf?, List.isPrefixOf_iff_prefix, hreturn, hfeed, if_false, ih,
        Option.map_map]
      rfl
    · have hp : wanted <+: c :: crlf t ↔ wanted <+: c :: t := by
        rw [← crlf_cons hc, h.prefix_crlf_iff]
      simp only [crlf_cons hc, indexOf?, List.isPrefixOf_iff_prefix, hp, ih]
      split
      · rfl
      · simp only [Option.map_map, Function.comp_def, crlfLength_cons t _ hc]

/-- What is found behind the first characters and taken with them has no carriage returns of its
own. -/
theorem crlfLength_of_indexOf? {wanted t : Text} {n body : Nat} (h : wanted.Unbroken)
    (hb : indexOf? wanted (t.drop n) = some body) :
    t.crlfLength (n + body + wanted.length) =
      t.crlfLength n + Text.crlfLength (t.drop n) body + wanted.length := by
  have hp := prefix_drop_of_indexOf? hb
  rw [List.drop_drop] at hp
  rw [crlfLength_add, crlfLength_add, h.crlfLength_eq hp]

theorem blockComment?_crlf {opener closer : Text} (ho : opener.Unbroken) (hc : closer.Unbroken)
    (t : Text) :
    blockComment? opener closer (crlf t) =
      (blockComment? opener closer t).map (Option.map t.crlfLength) := by
  unfold blockComment?
  rw [literal?_crlf ho]
  cases literal? opener t with
  | none => rfl
  | some n =>
    simp only [Option.map_some, drop_crlf, indexOf?_crlf hc]
    cases hb : indexOf? closer (t.drop n) with
    | none => rfl
    | some body => simp only [Option.map_some, Except.map, crlfLength_of_indexOf? hc hb]

section Quotes
variable {q : Char} (hq : q ∈ quotes)
include hq

theorem ne_break_of_mem_quotes : q ≠ '\n' ∧ q ≠ '\r' := by
  simp only [quotes, List.mem_cons, List.not_mem_nil, or_false] at hq
  rcases hq with rfl | rfl | rfl <;> decide

theorem closingQuote?_lineFeed (t : Text) :
    closingQuote? '\\' q ('\n' :: t) = (closingQuote? '\\' q t).map (· + 1) :=
  closingQuote?_cons_of_ne (by decide) (Ne.symm (ne_break_of_mem_quotes hq).1) t

theorem closingQuote?_return (t : Text) :
    closingQuote? '\\' q ('\r' :: t) = (closingQuote? '\\' q t).map (· + 1) :=
  closingQuote?_cons_of_ne (by decide) (Ne.symm (ne_break_of_mem_quotes hq).2) t

/-- The escape before a line feed takes the carriage return along in its place. -/
theorem closingQuote?_crlf (t : Text) :
    closingQuote? '\\' q (crlf t) = (closingQuote? '\\' q t).map t.crlfLength := by
  obtain ⟨hfeed, hreturn⟩ := ne_break_of_mem_quotes hq
  have hescape : '\\' ≠ '\n' := by decide
  fun_induction closingQuote? '\\' q t with
  | case1 => rfl
  | case2 b hb =>
    obtain rfl : b = '\\' := by simpa using hb
    rw [crlf_cons hescape, crlf_nil, closingQuote?, if_pos hb]
    rfl
  | case3 b hb he =>
    obtain rfl : b = q := by simpa using he
    rw [crlf_cons hfeed, crlf_nil, closingQuote?, if_neg hb, if_pos he, Option.map_some,
      crlfLength_cons [] 0 hfeed]
    rfl
  | case4 b hb he =>
    by_cases hn : b = '\n'
    · subst hn
      rw [crlf_lineFeed, closingQuote?_return hq, closingQuote?_lineFeed hq]
      rfl
    · rw [crlf_cons hn, closingQuote?_cons_of_ne (by simpa using hb) (by simpa using he)]
      rfl
  | case5 b c rest hb ih =>
    obtain rfl : b = '\\' := by simpa using hb
    by_cases hn : c = '\n'
    · -- the line feed itself is read behind the escape
      subst hn
      rw [crlf_cons hescape, crlf_lineFeed, closingQuote?, if_pos hb, closingQuote?_lineFeed hq, ih]
      simp only [Option.map_map, Function.comp_def, crlfLength_cons _ _ hescape, crlfLength_lineFeed]
    · rw [crlf_cons hescape, crlf_cons hn, closingQuote?, if_pos hb, ih]
      simp only [Option.map_map, Function.comp_def, crlfLength_cons _ _ hescape,
        crlfLength_cons _ _ hn]
  | case6 b c rest hb he hc ih =>
    obtain rfl : b = q := by simpa using he
    obtain rfl : c = b := by simpa using hc
    rw [crlf_cons hfeed, crlf_cons hfeed, closingQuote?, if_neg hb, if_pos he, if_pos hc, ih]
    simp only [Option.map_map, Function.comp_def, crlfLength_cons _ _ hfeed]
  | case7 b c rest hb he hc =>
    obtain rfl : b = q := by simpa using he
    rw [crlf_cons hfeed, Option.map_some, crlfLength_cons _ 0 hfeed]
    by_cases hn : c = '\n'
    · subst hn
      rw [crlf_lineFeed, closingQuote?, if_neg hb, if_pos he, if_neg (by simpa using hreturn.symm)]
      rfl
    · rw [crlf_cons hn, closingQuote?, if_neg hb, if_pos he, if_neg hc]
      rfl
  | case8 b c rest hb he ih =>
    by_cases hn : b = '\n'
    · subst hn
      rw [crlf_lineFeed, closingQuote?_return hq, closingQuote?_lineFeed hq, ih]
      simp only [Option.map_map, Function.comp_def, crlfLength_lineFeed]
    · rw [crlf_cons hn, closingQuote?_cons_of_ne (by simpa using hb) (by simpa using he), ih]
      simp only [Option.map_map, Function.comp_def, crlfLength_cons _ _ hn]

end Quotes

theorem quotedString?_crlf (t : Text) :
    quotedString? (crlf t) = (quotedString? t).map t.crlfLength := by
  cases t with
  | nil => rfl
  | cons c t =>
    by_cases hq : c ∈ quotes
    · have hc := (ne_break_of_mem_quotes hq).1
      rw [crlf_cons hc, quotedString?_cons, quotedString?_cons, if_pos hq, if_pos hq,
        closingQuote?_crlf hq]
      simp only [Option.map_map, Function.comp_def, crlfLength_cons t _ hc]
    · by_cases hc : c = '\n'
      · subst hc
        rfl
      · rw [crlf_cons hc, quotedString?_cons, quotedString?_cons, if_neg hq, if_neg hq]
        rfl

theorem IsTag.unbroken {tag : Text} (h : IsTag tag) : tag.Unbroken :=
  fun c hc => isLineBreak_eq_false (isBlank_of_isWordPart (h.isWordPart c hc))

theorem dollarQuote?_crlf (t : Text) :
    dollarQuote? (crlf t) = (dollarQuote? t).map (Option.map t.crlfLength) := by
  have htag : dollarTag? (crlf t) = dollarTag? t := by
    apply Option.ext
    intro tag
    rw [dollarTag?_eq_some_iff, dollarTag?_eq_some_iff]
    exact and_congr_right fun h => h.unbroken.prefix_crlf_iff
  unfold dollarQuote?
  rw [htag]
  cases ht : dollarTag? t with
  | none => rfl
  | some tag =>
    obtain ⟨h, hp⟩ := dollarTag?_eq_some_iff.mp ht
    have hopen := h.unbroken.crlfLength_eq hp
    have hdrop := drop_crlf t tag.length
    rw [hopen] at hdrop
    simp only [hdrop, indexOf?_crlf h.unbroken]
    cases hb : indexOf? tag (t.drop tag.length) with
    | none => rfl
    | some body =>
      simp only [Option.map_some, Except.map, crlfLength_of_indexOf? h.unbroken hb, hopen]

theorem identifier?_crlf (t : Text) : identifier? (crlf t) = (identifier? t).map t.crlfLength := by
  cases t with
  | nil => rfl
  | cons c t =>
    by_cases hc : c = '\n'
    · subst hc
      rfl
    · rw [crlf_cons hc, identifier?, identifier?]
      split
      · rw [length_takeWhile_crlf rfl, Option.map_some, crlfLength_cons t _ hc]
      · rfl

theorem blanks?_crlf (t : Text) : blanks? (crlf t) = (blanks? t).map t.crlfLength := by
  cases t with
  | nil => rfl
  | cons c t =>
    by_cases hc : c = '\n'
    · subst hc
      have hreturn : isAsciiBlank '\r' = true := rfl
      have hfeed : isAsciiBlank '\n' = true := rfl
      rw [crlf_lineFeed, blanks?, blanks?, if_pos hreturn, if_pos hfeed,
        List.takeWhile_cons_of_pos hfeed, List.length_cons, length_takeWhile_crlf rfl,
        Option.map_some, crlfLength_lineFeed]
    · rw [crlf_cons hc, blanks?, blanks?]
      split
      · rw [length_takeWhile_crlf rfl, Option.map_some, crlfLength_cons t _ hc]
      · rfl

/-- A line feed is a blank, so no sign gets a carriage return. -/
theorem character?_crlf {t : Text} (h : blanks? t = none) :
    character? (crlf t) = (character? t).map t.crlfLength := by
  cases t with
  | nil => rfl
  | cons c t =>
    have hc : c ≠ '\n' := by
      rintro rfl
      cases h
    rw [crlf_cons hc, character?, character?, Option.map_some, crlfLength_cons t 0 hc]
    rfl

end Lexeme

def Settings.Unbroken (s : Settings) : Prop := ∀ field ∈ Field.delimiters, (s.get field).Unbroken

instance (s : Settings) : Decidable s.Unbroken :=
  inferInstanceAs (Decidable (∀ field ∈ Settings.Field.delimiters, (s.get field).Unbroken))

namespace Token
open Lexeme

/-- A carriage return before each line feed does not change how a text begins, and no token ends
between the two. -/
theorem classify_crlf {s : Settings} (hs : s.Unbroken) (t : Text) :
    classify s (Text.crlf t) = (classify s t).map fun found => (found.1, t.crlfLength found.2) := by
  have hsep : s.separator.Unbroken := hs .separator (by decide)
  have hline : s.lineComment.Unbroken := hs .lineComment (by decide)
  have hopen : s.blockOpen.Unbroken := hs .blockOpen (by decide)
  have hclose : s.blockClose.Unbroken := hs .blockClose (by decide)
  unfold classify
  rw [literal?_crlf hsep, lineComment?_crlf hline, blockComment?_crlf hopen hclose,
    quotedString?_crlf, dollarQuote?_crlf, identifier?_crlf, blanks?_crlf]
  cases literal? s.separator t with
  | some n => rfl
  | none =>
  cases lineComment? s.lineComment t with
  | some n => rfl
  | none =>
  rcases blockComment? s.blockOpen s.blockClose t with why | _ | n
  · rfl
  · cases quotedString? t with
    | some n => rfl
    | none =>
    rcases dollarQuote? t with why | _ | n
    · rfl
    · cases identifier? t with
      | some n => rfl
      | none =>
      cases hb : blanks? t with
      | some n => rfl
      | none =>
      simp only [Except.map, Option.map_none, character?_crlf hb]
      cases character? t <;> rfl
    · rfl
  · rfl

theorem Leads.crlf {s : Settings} {t : Token} {w : Text} (hs : s.Unbroken) (h : Leads s t w) :
    Leads s { t with text := Text.crlf t.text } (Text.crlf w) := by
  obtain ⟨hne, hc⟩ := h
  refine ⟨mt Text.crlf_eq_nil_iff.mp hne, ?_⟩
  rw [← classify_eq_ok_iff] at hc ⊢
  dsimp only
  rw [← Text.crlf_append, classify_crlf hs, hc,
    ← Text.crlfLength_front (List.prefix_append t.text w)]
  rfl

end Token
end SqlStatements
