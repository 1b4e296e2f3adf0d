import SqlStatements.Proofs.CarriageReturns
import SqlStatements.Proofs.Failing
import SqlStatements.Proofs.Resembling
import SqlStatements.Proofs.Trimming

namespace SqlStatements

namespace Text

/-- The text with a line feed for each carriage return and line feed. -/
def lf : Text → Text
  | [] => []
  | '\r' :: '\n' :: t => '\n' :: lf t
  | c :: t => c :: lf t

/-- The first text is the second one with carriage returns before some of its line feeds. -/
inductive Recodes : Text → Text → Prop where
  | nil : Recodes [] []
  | same {c : Char} {x y : Text} : c ≠ '\r' → Recodes x y → Recodes (c :: x) (c :: y)
  | lineFeed {x y : Text} : Recodes x y → Recodes ('\r' :: '\n' :: x) ('\n' :: y)

theorem recodes_crlf {t : Text} (h : '\r' ∉ t) : Recodes (crlf t) t := by
  induction t with
  | nil => exact .nil
  | cons c t ih =>
    simp only [List.mem_cons, not_or] at h
    by_cases hc : c = '\n'
    · subst hc
      exact .lineFeed (ih h.2)
    · rw [crlf_cons hc]
      exact .same (Ne.symm h.1) (ih h.2)

namespace Recodes
variable {x y x' y' : Text}

theorem lf_eq (h : Recodes x y) : lf x = y := by
  induction h with
  | nil => rfl
  | @same c x y hc _ ih =>
    rw [lf, ih]
    intro r he
    exact absurd he hc
  | lineFeed _ ih => rw [lf, ih]

theorem append (h : Recodes x y) (k : Recodes x' y') : Recodes (x ++ x') (y ++ y') := by
  induction h with
  | nil => exact k
  | same hc _ ih => exact .same hc ih
  | lineFeed _ ih => exact .lineFeed ih

theorem eq_nil_iff (h : Recodes x y) : x = [] ↔ y = [] := by
  cases h <;> simp

/-- A carriage return is never the last character. -/
theorem getLast?_eq (h : Recodes x y) : x.getLast? = y.getLast? := by
  induction h with
  | nil => rfl
  | same _ _ ih => rw [List.getLast?_cons, List.getLast?_cons, ih]
  | lineFeed _ ih => rw [List.getLast?_cons, List.getLast?_cons, List.getLast?_cons, ih]; rfl

theorem exists_concat {c : Char} (h : Recodes x (y ++ [c])) :
    ∃ front back, x = front ++ back ∧ Recodes front y ∧ Recodes back [c] := by
  induction y generalizing x with
  | nil => exact ⟨[], x, rfl, .nil, h⟩
  | cons d y ih =>
    cases h with
    | same hd h =>
      obtain ⟨front, back, rfl, hfront, hback⟩ := ih h
      exact ⟨d :: front, back, rfl, .same hd hfront, hback⟩
    | lineFeed h =>
      obtain ⟨front, back, rfl, hfront, hback⟩ := ih h
      exact ⟨'\r' :: '\n' :: front, back, rfl, .lineFeed hfront, hback⟩

theorem dropWhile (h : Recodes x y) : Recodes (x.dropWhile isBlank) (y.dropWhile isBlank) := by
  induction h with
  | nil => exact .nil
  | @same c x y hc h ih =>
    by_cases hb : isBlank c = true
    · rw [List.dropWhile_cons_of_pos hb, List.dropWhile_cons_of_pos hb]
      exact ih
    · rw [List.dropWhile_cons_of_neg hb, List.dropWhile_cons_of_neg hb]
      exact .same hc h
  | lineFeed _ ih =>
    have hreturn := isBlank_of_isLineBreak (c := '\r') rfl
    have hfeed := isBlank_of_isLineBreak (c := '\n') rfl
    rw [List.dropWhile_cons_of_pos hreturn, List.dropWhile_cons_of_pos hfeed,
      List.dropWhile_cons_of_pos hfeed]
    exact ih

theorem rdropWhile (h : Recodes x y) : Recodes (x.rdropWhile isBlank) (y.rdropWhile isBlank) := by
  induction y using List.reverseRec generalizing x with
  | nil =>
    cases h
    exact .nil
  | append_singleton y c ih =>
    obtain ⟨front, back, rfl, hfront, hback⟩ := h.exists_concat
    cases hback with
    | same hc h =>
      cases h
      rw [List.rdropWhile_concat, List.rdropWhile_concat]
      split
      · exact ih hfront
      · exact hfront.append (.same hc .nil)
    | lineFeed h =>
      cases h
      have hreturn := isBlank_of_isLineBreak (c := '\r') rfl
      have hfeed := isBlank_of_isLineBreak (c := '\n') rfl
      rw [List.rdropWhile_concat_pos _ _ _ hfeed, List.append_cons front '\r' ['\n'],
        List.rdropWhile_concat_pos _ _ _ hfeed, List.rdropWhile_concat_pos _ _ _ hreturn]
      exact ih hfront

theorem trim (h : Recodes x y) : Recodes (Text.trim x) (Text.trim y) := h.dropWhile.rdropWhile

end Recodes

theorem map_lf_eq {xs ys : List Text} (h : List.Forall₂ Recodes xs ys) : xs.map lf = ys := by
  induction h with
  | nil => rfl
  | cons hx _ ih => rw [List.map_cons, hx.lf_eq, ih]

theorem resemblance_recodes : Resemblance Recodes where
  nil := .nil
  space := .same (by decide) .nil
  lineBreak := .same (by decide) .nil
  append h k := h.append k
  trim h := h.trim
  eq_nil_iff h := h.eq_nil_iff
  getLast?_iff h _ := by rw [h.getLast?_eq]

/-- Text without line feeds is recognized whether or not there are carriage returns. -/
theorem crlf_iff {P : Text → Prop} (hP : ∀ u, P u → '\n' ∉ u) (t : Text) : P (crlf t) ↔ P t := by
  by_cases ht : '\n' ∈ t
  · have hcrlf : '\n' ∈ crlf t := List.mem_flatMap.mpr ⟨'\n', ht, by simp⟩
    exact iff_of_false (fun h => hP _ h hcrlf) (fun h => hP _ h ht)
  · rw [crlf_of_notMem ht]

theorem any_isLineBreak_crlf (t : Text) : (crlf t).any isLineBreak = t.any isLineBreak := by
  induction t with
  | nil => rfl
  | cons c t ih =>
    by_cases hc : c = '\n'
    · subst hc
      rfl
    · rw [crlf_cons hc, List.any_cons, List.any_cons, ih]

theorem lineFeed_notMem_of_sameWord {t word : Text} (hword : '\n' ∉ word.map Char.toLower)
    (h : t.sameWord word = true) : '\n' ∉ t := by
  intro hm
  have hmap : t.map Char.toLower = word.map Char.toLower := by simpa [sameWord] using h
  rw [← hmap] at hword
  exact hword (List.mem_map.mpr ⟨'\n', hm, rfl⟩)

end Text

/-- A token with carriage returns is the same word or sign, if it is one at all. -/
theorem Token.resembles_crlf {t u : Token} (hkind : t.kind = u.kind)
    (htext : t.text = Text.crlf u.text) (hu : '\r' ∉ u.text) : t.Resembles Text.Recodes u := by
  have hkeyword (word : Text) (hword : '\n' ∉ word.map Char.toLower) :
      t.isKeyword word = u.isKeyword word := by
    unfold Token.isKeyword
    rw [hkind, htext, Bool.eq_iff_iff, Bool.and_eq_true, Bool.and_eq_true,
      Text.crlf_iff (P := fun t => t.sameWord word = true)
        (fun _ => Text.lineFeed_notMem_of_sameWord hword)]
  have hsemicolon := Text.crlf_iff (P := fun t => t = [';']) (by simp) u.text
  refine ⟨hkind, ?_, hkeyword _ (by decide), hkeyword _ (by decide), ?_, ?_⟩
  · rw [htext]
    exact Text.recodes_crlf hu
  · rw [htext]
    exact hsemicolon
  · rw [htext, Text.any_isLineBreak_crlf]

/-- Carriage returns change nothing about the tokens of a text but their own texts and places. -/
theorem TokenStream.read_crlf {s : Settings} (hs : s.Unbroken) {w : Text} (hw : '\r' ∉ w)
    (start start' : Nat) :
    List.Forall₂ (Token.Resembles Text.Recodes) (read s start (Text.crlf w)).tokens
        (read s start' w).tokens ∧
      (read s start (Text.crlf w)).unclosed = (read s start' w).unclosed ∧
      (read s start (Text.crlf w)).text = Text.crlf (read s start' w).text := by
  induction w using text_induction (s := s) generalizing start start' with
  | nil =>
    rw [Text.crlf_nil, read_nil, read_nil]
    exact ⟨.nil, rfl, rfl⟩
  | unclosed w why h =>
    have hcrlf : Token.classify s (Text.crlf w) = .error why := by
      rw [Token.classify_crlf hs, h]
      rfl
    rw [read_of_error _ hcrlf, read_of_error _ h]
    exact ⟨.nil, rfl, rfl⟩
  | token kind x v hx ih =>
    simp only [List.mem_append, not_or] at hw
    obtain ⟨htokens, hunclosed, htext⟩ := ih hw.2 (start + Text.byteSize (Text.crlf x))
      (start' + Text.byteSize x)
    rw [Text.crlf_append, read_of_leads ((hx start).crlf hs) start, read_of_leads (hx start') start']
    refine ⟨.cons (Token.resembles_crlf rfl rfl hw.1) htokens, hunclosed, ?_⟩
    unfold TokenStream.text at htext ⊢
    simp only [List.flatMap_cons, htext, Text.crlf_append]

theorem splitUnchecked_crlf {settings : Settings} {script : Text} (hd : settings.Unbroken)
    (hs : '\r' ∉ script) :
    (splitUnchecked settings (Text.crlf script)).result.map (List.map Text.lf) =
      (splitUnchecked settings script).result := by
  obtain ⟨htokens, hunclosed, htext⟩ := TokenStream.read_crlf hd hs 0 0
  have hempty : Assembly.empty.Resembles Text.Recodes .empty := ⟨.standard, rfl, .nil, .nil⟩
  have hstatements := ((hempty.readAll Text.resemblance_recodes htokens).conclude
    Text.resemblance_recodes).statements
  rw [splitUnchecked_eq, splitUnchecked_eq]
  unfold TokenStream.failure?
  rw [hunclosed, htext, List.nil_append, List.nil_append, Position.after_crlf]
  cases (TokenStream.read settings 0 script).unclosed with
  | none =>
    simp only [Option.map_none, Except.map, Except.ok.injEq]
    exact Text.map_lf_eq hstatements
  | some why => rfl

/-- A script with carriage returns before its line feeds is split like the one without, as long
as no delimiter has a line break in it. -/
theorem split_ignores_carriage_returns {settings : Settings} {script : Text}
    (hd : settings.Unbroken) (hs : '\r' ∉ script) :
    (split settings (Text.crlf script)).result.map (List.map Text.lf) =
      (split settings script).result := by
  cases h : settings.validate with
  | error why =>
    rw [split_of_invalid h, split_of_invalid h]
    rfl
  | ok u =>
    rw [result_split_of_valid h, result_split_of_valid h, splitUnchecked_crlf hd hs]

/-- Line feeds end a comment, join two literals, stand behind an escape and are kept in a block. -/
theorem split_ignores_carriage_returns_everywhere :
    let script := "--a\nb 'x\\\n'\n \n'y'; BEGIN\n c;\nEND\n;\n".toList
    Settings.standard.Unbroken ∧ '\r' ∉ script ∧
      (split .standard (Text.crlf script)).result.map (List.map Text.lf) =
        .ok ["b 'x\\\n'\n'y'".toList, "BEGIN\n c;\nEND".toList] := by
  intro script
  have hd : Settings.standard.Unbroken := by decide
  have hs : '\r' ∉ script := by decide
  refine ⟨hd, hs, ?_⟩
  rw [split_ignores_carriage_returns hd hs]
  decide +kernel

end SqlStatements
