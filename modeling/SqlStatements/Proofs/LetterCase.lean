import SqlStatements.Proofs.CarriageReturns
import SqlStatements.Proofs.Failing
import SqlStatements.Proofs.Resembling
import SqlStatements.Proofs.Trimming

namespace SqlStatements

/-- What makes no difference between letters does not see their case. -/
theorem apply_toLower {α : Type} {p : Char → α} {a : α} (h : ∀ c, c.isAlpha = true → p c = a)
    (c : Char) : p c.toLower = p c := by
  rcases toLower_cases c with ⟨-, hsame⟩ | ⟨hupper, -⟩
  · rw [hsame]
  · have hc : c.isAlpha = true := Bool.or_eq_true_iff.mpr (.inl hupper)
    rw [h c hc, h c.toLower (by rw [isAlpha_toLower, hc])]

theorem isWordPart_toLower (c : Char) : Lexeme.isWordPart c.toLower = Lexeme.isWordPart c :=
  apply_toLower (fun _ h => isWordPart_of_isAlpha h) c

theorem isBlank_toLower (c : Char) : isBlank c.toLower = isBlank c :=
  apply_toLower (fun _ h => isBlank_of_isWordPart (isWordPart_of_isAlpha h)) c

theorem isAsciiBlank_toLower (c : Char) : isAsciiBlank c.toLower = isAsciiBlank c :=
  apply_toLower
    (fun _ h => isAsciiBlank_eq_false (isBlank_of_isWordPart (isWordPart_of_isAlpha h))) c

theorem isLineBreak_toLower (c : Char) : isLineBreak c.toLower = isLineBreak c :=
  apply_toLower
    (fun _ h => isLineBreak_eq_false (isBlank_of_isWordPart (isWordPart_of_isAlpha h))) c

/-- Only a sign itself is written like it in lower case. -/
theorem toLower_eq_iff {d : Char} (hd : d.isAlpha = false) (c : Char) : c.toLower = d ↔ c = d := by
  have hne : ∀ c, c.isAlpha = true → (c = d) = False := by
    intro c hc
    rw [eq_iff_iff, iff_false]
    rintro rfl
    rw [hd] at hc
    cases hc
  rw [← eq_iff_iff]
  exact apply_toLower (p := fun c => c = d) hne c

namespace Text

def lower (t : Text) : Text := t.map Char.toLower

def Letterless (t : Text) : Prop := ∀ c ∈ t, c.isAlpha = false

instance (t : Text) : Decidable t.Letterless :=
  decidable_of_iff (t.all (fun c => !c.isAlpha) = true) (by simp [Letterless])

theorem sameWord_iff {s t : Text} : s.sameWord t = true ↔ s.lower = t.lower := beq_iff_eq

@[simp] theorem lower_nil : lower [] = [] := rfl

@[simp] theorem lower_cons (c : Char) (t : Text) : lower (c :: t) = c.toLower :: lower t := rfl

@[simp] theorem lower_append (s t : Text) : lower (s ++ t) = lower s ++ lower t := List.map_append

@[simp] theorem length_lower (t : Text) : t.lower.length = t.length := List.length_map _

@[simp] theorem lower_lower (t : Text) : t.lower.lower = t.lower := by
  rw [lower, lower, List.map_map]
  exact List.map_congr_left fun c _ => toLower_toLower c

theorem drop_lower (t : Text) (n : Nat) : t.lower.drop n = lower (t.drop n) := List.map_drop.symm

theorem mem_lower_iff {d : Char} (hd : d.isAlpha = false) (t : Text) : d ∈ t.lower ↔ d ∈ t := by
  simp only [lower, List.mem_map, toLower_eq_iff hd, exists_eq_right]

theorem getLast?_lower_eq_iff {d : Char} (hd : d.isAlpha = false) (t : Text) :
    t.lower.getLast? = some d ↔ t.getLast? = some d := by
  simp only [lower, List.getLast?_map, Option.map_eq_some_iff, toLower_eq_iff hd, exists_eq_right]

section While
variable {p : Char → Bool} (hp : ∀ c, p c.toLower = p c)
include hp

theorem takeWhile_lower (t : Text) : t.lower.takeWhile p = lower (t.takeWhile p) := by
  have hcomp : p ∘ Char.toLower = p := funext hp
  rw [lower, List.takeWhile_map, hcomp]
  rfl

theorem dropWhile_lower (t : Text) : t.lower.dropWhile p = lower (t.dropWhile p) := by
  have hcomp : p ∘ Char.toLower = p := funext hp
  rw [lower, List.dropWhile_map, hcomp]
  rfl

theorem any_lower (t : Text) : t.lower.any p = t.any p := by
  have hcomp : p ∘ Char.toLower = p := funext hp
  rw [lower, List.any_map, hcomp]

end While

theorem trim_lower (t : Text) : t.lower.trim = lower t.trim := by
  have hreverse (s : Text) : s.lower.reverse = lower s.reverse := List.map_reverse.symm
  simp only [trim, hreverse, dropWhile_lower isBlank_toLower]

/-- Text without letters begins another text in whatever case that one is written. -/
theorem Letterless.prefix_lower_iff {s t : Text} (h : s.Letterless) : s <+: t.lower ↔ s <+: t := by
  induction s generalizing t with
  | nil => simp
  | cons d s ih =>
    cases t with
    | nil => simp
    | cons c t =>
      have hd := toLower_eq_iff (h d List.mem_cons_self) c
      rw [lower_cons, List.cons_prefix_cons, List.cons_prefix_cons,
        ih fun c hc => h c (List.mem_cons_of_mem d hc), eq_comm, hd, eq_comm]

theorem resemblance_lower : Resemblance fun s t => s = t.lower where
  nil := rfl
  space := rfl
  lineBreak := rfl
  append h k := by rw [h, k, lower_append]
  trim h := by rw [h, trim_lower]
  eq_nil_iff h := by rw [h, lower, List.map_eq_nil_iff]
  getLast?_iff h hc := by
    have hmarks : ∀ d ∈ Assembly.marks, d.isAlpha = false := by simp [Assembly.marks]
    rw [h, getLast?_lower_eq_iff (hmarks _ hc)]

end Text

theorem Position.after_lower (t : Text) : Position.after t.lower = Position.after t := by
  have hnext (p : Position) (c : Char) : p.next c.toLower = p.next c := by
    simp only [next, toLower_eq_iff (d := '\n') rfl]
  have hstart := after_append [] t
  have hlower := after_append [] t.lower
  rw [Text.lower, List.foldl_map] at hlower
  simp only [hnext] at hlower
  exact hlower.trans hstart.symm

namespace Lexeme
open Text

theorem literal?_lower {literal : Text} (h : literal.Letterless) (t : Text) :
    literal? literal t.lower = literal? literal t := by
  have hp : literal.isPrefixOf t.lower = literal.isPrefixOf t := by
    rw [Bool.eq_iff_iff, List.isPrefixOf_iff_prefix, List.isPrefixOf_iff_prefix, h.prefix_lower_iff]
  rw [literal?, literal?, hp]

theorem lineLength_lower (t : Text) : lineLength t.lower = lineLength t := by
  have hline (c : Char) : (!isLineBreak c.toLower) = !isLineBreak c := by rw [isLineBreak_toLower]
  unfold lineLength
  rw [takeWhile_lower hline, dropWhile_lower hline, takeWhile_lower isLineBreak_toLower,
    length_lower, length_lower]

theorem lineComment?_lower {opener : Text} (h : opener.Letterless) (t : Text) :
    lineComment? opener t.lower = lineComment? opener t := by
  simp only [lineComment?, literal?_lower h, drop_lower, lineLength_lower]

theorem indexOf?_lower {wanted : Text} (h : wanted.Letterless) (t : Text) :
    indexOf? wanted t.lower = indexOf? wanted t := by
  induction t with
  | nil => rfl
  | cons c t ih =>
    have hp : wanted <+: c.toLower :: lower t ↔ wanted <+: c :: t :=
      h.prefix_lower_iff (t := c :: t)
    simp only [lower_cons, indexOf?, List.isPrefixOf_iff_prefix, hp, ih]

theorem blockComment?_lower {opener closer : Text} (ho : opener.Letterless)
    (hc : closer.Letterless) (t : Text) :
    blockComment? opener closer t.lower = blockComment? opener closer t := by
  simp only [blockComment?, literal?_lower ho, drop_lower, indexOf?_lower hc]

theorem closingQuote?_lower {q : Char} (hq : q.isAlpha = false) (t : Text) :
    closingQuote? '\\' q t.lower = closingQuote? '\\' q t := by
  have hescape (c : Char) : (c.toLower == '\\') = (c == '\\') := by
    rw [Bool.eq_iff_iff, beq_iff_eq, beq_iff_eq, toLower_eq_iff rfl]
  have hquote (c : Char) : (c.toLower == q) = (c == q) := by
    rw [Bool.eq_iff_iff, beq_iff_eq, beq_iff_eq, toLower_eq_iff hq]
  fun_induction closingQuote? '\\' q t <;>
    simp_all only [lower_nil, lower_cons, closingQuote?, if_true, if_false, Bool.false_eq_true]

theorem quotedString?_lower (t : Text) : quotedString? t.lower = quotedString? t := by
  have hquotes : ∀ q ∈ quotes, q.isAlpha = false := by simp [quotes]
  cases t with
  | nil => rfl
  | cons c t =>
    rw [lower_cons, quotedString?_cons, quotedString?_cons]
    by_cases hc : c ∈ quotes
    · rw [(toLower_eq_iff (hquotes c hc) c).mpr rfl, if_pos hc, if_pos hc,
        closingQuote?_lower (hquotes c hc)]
    · have hlower : c.toLower ∉ quotes := by
        intro hm
        exact hc ((toLower_eq_iff (hquotes _ hm) c).mp rfl ▸ hm)
      rw [if_neg hc, if_neg hlower]

theorem dollarQuote?_eq_none_of_notMem {t : Text} (h : '$' ∉ t) : dollarQuote? t = .ok none := by
  rw [dollarQuote?_eq_none_iff]
  cases t with
  | nil => rfl
  | cons c t =>
    have hc : ¬ (c == '$') = true := by
      rw [beq_iff_eq]
      rintro rfl
      exact h List.mem_cons_self
    rw [dollarTag?, if_neg hc]

theorem identifier?_lower (t : Text) : identifier? t.lower = identifier? t := by
  cases t with
  | nil => rfl
  | cons c t =>
    rw [lower_cons, identifier?, identifier?, isAlpha_toLower,
      takeWhile_lower isWordPart_toLower, length_lower]

theorem blanks?_lower (t : Text) : blanks? t.lower = blanks? t := by
  cases t with
  | nil => rfl
  | cons c t =>
    rw [lower_cons, blanks?, blanks?, isAsciiBlank_toLower, takeWhile_lower isAsciiBlank_toLower,
      length_lower]

theorem character?_lower (t : Text) : character? t.lower = character? t := by
  cases t <;> rfl

end Lexeme

def Settings.Letterless (s : Settings) : Prop :=
  ∀ field ∈ Field.delimiters, (s.get field).Letterless

instance (s : Settings) : Decidable s.Letterless :=
  inferInstanceAs (Decidable (∀ field ∈ Settings.Field.delimiters, (s.get field).Letterless))

namespace Token
open Lexeme

/-- Without a dollar sign a text begins in the same way in whatever case it is written. -/
theorem classify_lower {s : Settings} (hs : s.Letterless) {t : Text} (ht : '$' ∉ t) :
    classify s t.lower = classify s t := by
  have hsep : s.separator.Letterless := hs .separator (by decide)
  have hline : s.lineComment.Letterless := hs .lineComment (by decide)
  have hopen : s.blockOpen.Letterless := hs .blockOpen (by decide)
  have hclose : s.blockClose.Letterless := hs .blockClose (by decide)
  have hlower : '$' ∉ t.lower := mt (Text.mem_lower_iff rfl t).mp ht
  unfold classify
  rw [literal?_lower hsep, lineComment?_lower hline, blockComment?_lower hopen hclose,
    quotedString?_lower, dollarQuote?_eq_none_of_notMem ht, dollarQuote?_eq_none_of_notMem hlower,
    identifier?_lower, blanks?_lower, character?_lower]

theorem Leads.lower {s : Settings} {t : Token} {w : Text} (hs : s.Letterless)
    (hw : '$' ∉ t.text ++ w) (h : Leads s t w) :
    Leads s { t with text := t.text.lower } w.lower := by
  obtain ⟨hne, hc⟩ := h
  refine ⟨mt List.map_eq_nil_iff.mp hne, ?_⟩
  rw [← classify_eq_ok_iff] at hc ⊢
  dsimp only
  rw [← Text.lower_append, classify_lower hs hw, hc, Text.length_lower]

/-- In lower case a token is the same word or sign. -/
theorem resembles_lower {t u : Token} (hkind : t.kind = u.kind) (htext : t.text = u.text.lower) :
    t.Resembles (fun x y => x = y.lower) u := by
  have hkeyword (word : Text) : t.isKeyword word = u.isKeyword word := by
    have hword : t.text.sameWord word = u.text.sameWord word := by
      rw [Bool.eq_iff_iff, Text.sameWord_iff, Text.sameWord_iff, htext, Text.lower_lower]
    rw [isKeyword, isKeyword, hkind, hword]
  refine ⟨hkind, htext, hkeyword _, hkeyword _, ?_, ?_⟩
  · have hsemicolon : Text.lower [';'] = [';'] := rfl
    rw [htext]
    constructor
    · intro h
      obtain ⟨c, hc, hlower⟩ := List.map_eq_singleton_iff.mp h
      rw [hc, (toLower_eq_iff rfl c).mp hlower]
    · intro h
      rw [h, hsemicolon]
  · rw [htext, Text.any_lower isLineBreak_toLower]

end Token

/-- The tokens of a text in lower case are those of the text in lower case. -/
theorem TokenStream.read_lower {s : Settings} (hs : s.Letterless) {w : Text} (hw : '$' ∉ w)
    (start start' : Nat) :
    List.Forall₂ (Token.Resembles fun x y => x = Text.lower y) (read s start w.lower).tokens
        (read s start' w).tokens ∧
      (read s start w.lower).unclosed = (read s start' w).unclosed ∧
      (read s start w.lower).text = (read s start' w).text.lower := by
  induction w using text_induction (s := s) generalizing start start' with
  | nil =>
    rw [Text.lower_nil, read_nil, read_nil]
    exact ⟨.nil, rfl, rfl⟩
  | unclosed w why h =>
    have hlower : Token.classify s w.lower = .error why := by rw [Token.classify_lower hs hw, h]
    rw [read_of_error _ hlower, read_of_error _ h]
    exact ⟨.nil, rfl, rfl⟩
  | token kind x v hx ih =>
    have hv : '$' ∉ v := fun hm => hw (List.mem_append_right x hm)
    obtain ⟨htokens, hunclosed, htext⟩ := ih hv (start + Text.byteSize x.lower)
      (start' + Text.byteSize x)
    rw [Text.lower_append, read_of_leads ((hx start).lower hs hw) start,
      read_of_leads (hx start') start']
    refine ⟨.cons (Token.resembles_lower rfl rfl) htokens, hunclosed, ?_⟩
    unfold TokenStream.text at htext ⊢
    simp only [List.flatMap_cons, htext, Text.lower_append]

theorem splitUnchecked_lower {settings : Settings} {script : Text} (hd : settings.Letterless)
    (hs : '$' ∉ script) :
    (splitUnchecked settings script.lower).result =
      (splitUnchecked settings script).result.map (List.map Text.lower) := by
  obtain ⟨htokens, hunclosed, htext⟩ := TokenStream.read_lower hd hs 0 0
  have hempty : Assembly.empty.Resembles (fun x y => x = Text.lower y) .empty :=
    ⟨.standard, rfl, rfl, .nil⟩
  have hstatements := ((hempty.readAll Text.resemblance_lower htokens).conclude
    Text.resemblance_lower).statements
  rw [splitUnchecked_eq, splitUnchecked_eq]
  unfold TokenStream.failure?
  rw [hunclosed, htext, List.nil_append, List.nil_append, Position.after_lower]
  cases (TokenStream.read settings 0 script).unclosed with
  | none =>
    simp only [Option.map_none, Except.map, Except.ok.injEq]
    rw [← List.forall₂_map_right_iff, List.forall₂_eq_eq_eq] at hstatements
    exact hstatements
  | some why => rfl

theorem split_lower {settings : Settings} {script : Text} (hd : settings.Letterless)
    (hs : '$' ∉ script) :
    (split settings script.lower).result =
      (split settings script).result.map (List.map Text.lower) := by
  cases h : settings.validate with
  | error why =>
    rw [split_of_invalid h, split_of_invalid h]
    rfl
  | ok u => rw [result_split_of_valid h, result_split_of_valid h, splitUnchecked_lower hd hs]

/-- Scripts that differ in the case of letters only fail in the same way or have statements that
differ in the case of letters only. No word begins or ends a block in one case and not in the
other. -/
theorem split_ignores_letter_case {settings : Settings} {s t : Text} (hd : settings.Letterless)
    (hs : '$' ∉ s) (h : s.sameWord t = true) :
    (∃ e, (split settings s).result = .error e ∧ (split settings t).result = .error e) ∨
      ∃ xs ys, (split settings s).result = .ok xs ∧ (split settings t).result = .ok ys ∧
        List.Forall₂ (fun x y => x.sameWord y = true) xs ys := by
  have hlower : s.lower = t.lower := Text.sameWord_iff.mp h
  have ht : '$' ∉ t := by
    rw [← Text.mem_lower_iff rfl, ← hlower, Text.mem_lower_iff rfl]
    exact hs
  have hboth := split_lower hd hs
  rw [hlower, split_lower hd ht] at hboth
  cases hx : (split settings s).result with
  | error e =>
    cases hy : (split settings t).result <;> rw [hx, hy] at hboth <;> cases hboth
    exact .inl ⟨e, rfl, rfl⟩
  | ok xs =>
    cases hy : (split settings t).result with
    | error e => rw [hx, hy] at hboth; cases hboth
    | ok ys =>
      rw [hx, hy] at hboth
      have hmap : ys.map Text.lower = xs.map Text.lower := Except.ok.inj hboth
      have hforall : List.Forall₂ (· = ·) (xs.map Text.lower) (ys.map Text.lower) := by
        rw [hmap, List.forall₂_eq_eq_eq]
      refine .inr ⟨xs, ys, rfl, rfl, ?_⟩
      simpa only [List.forall₂_map_left_iff, List.forall₂_map_right_iff, ← Text.sameWord_iff]
        using hforall

/-- The keywords of a block and the words of the other statement are each in mixed case. -/
theorem split_ignores_letter_case_of_keywords :
    let s := "Begin a; END;\nselect 'X';".toList
    let t := "bEGIN A; eNd;\nSELECT 'x';".toList
    let out : List Text := ["Begin a; END".toList, "select 'X'".toList]
    Settings.standard.Letterless ∧ '$' ∉ s ∧ Text.sameWord s t = true ∧
      (split .standard s).result = .ok out ∧
      ∃ ys, (split .standard t).result = .ok ys ∧
        List.Forall₂ (fun x y => Text.sameWord x y = true) out ys := by
  intro s t out
  have hd : Settings.standard.Letterless := by decide +kernel
  have hs : '$' ∉ s := by decide
  have h : Text.sameWord s t = true := by decide +kernel
  have hout : (split .standard s).result = .ok out := by decide +kernel
  refine ⟨hd, hs, h, hout, ?_⟩
  rcases split_ignores_letter_case hd hs h with ⟨e, he, -⟩ | ⟨xs, ys, hx, hy, hforall⟩
  · rw [hout] at he
    cases he
  · obtain rfl : out = xs := Except.ok.inj (hout.symm.trans hx)
    exact ⟨ys, hy, hforall⟩

end SqlStatements
