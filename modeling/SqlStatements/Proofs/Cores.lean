import SqlStatements.Proofs.Condensing
import SqlStatements.Proofs.Cutting

namespace SqlStatements

def Token.isAllBlank (t : Token) : Bool := t.text.isAllBlank

/-- The token leaves nothing but blanks in a statement. -/
def Token.isFaint (t : Token) : Bool := t.kind == .comment || t.isAllBlank

namespace Token
variable {s : Settings} {t : Token} {w : Text}

/-- A significant token that does not only consist of blanks neither begins nor ends with
one. -/
theorem Leads.solid_edges (h : Leads s t w) (ht : t.isSignificant = true)
    (hf : t.isAllBlank = false) :
    (∃ c ∈ t.text.head?, isBlank c = false) ∧ ∃ c ∈ t.text.getLast?, isBlank c = false := by
  rcases h.edges ht with ⟨c, hc, -⟩ | hends
  · have hb : isBlank c = false := by
      rw [isAllBlank, hc] at hf
      simpa [Text.isAllBlank] using hf
    exact ⟨⟨c, by simp [hc], hb⟩, c, by simp [hc], hb⟩
  · exact hends

theorem Leads.solid_of_isKeyword {word : Text} (h : Leads s t w) (ht : t.isKeyword word = true) :
    t.isSignificant = true ∧ t.isAllBlank = false := by
  have hk := kind_of_isKeyword ht
  refine ⟨by simp [isSignificant, hk], ?_⟩
  obtain ⟨c, cs, hcs⟩ := List.exists_cons_of_ne_nil h.1
  have := h.nonblank_of_identifier hk c (by simp [hcs])
  simp [isAllBlank, Text.isAllBlank, hcs, this]

theorem isFaint_of_isTrivia (h : Leads .standard t w) (ht : t.isTrivia = true) :
    t.isFaint = true := by
  by_cases hc : t.kind = .comment
  · simp [isFaint, hc]
  · have hk : t.kind = .whitespace := by simpa [isTrivia, hc] using ht
    obtain ⟨kind, x, start⟩ := t
    dsimp only at hk
    subst hk
    cases h.2 with
    | blanks _ _ hb =>
      obtain ⟨-, hall, -⟩ := Lexeme.blanks?_append_iff.mp hb
      have : Text.isAllBlank x = true :=
        List.all_eq_true.mpr fun c hc => isBlank_of_isAsciiBlank (hall c hc)
      simp [isFaint, isAllBlank, this]

theorem isAllBlank_of_isFaint (h : t.isFaint = true) (ht : t.isTrivia = false) :
    t.text.isAllBlank = true := by
  have hk : t.kind ≠ .comment := by
    intro hk
    simp [isTrivia, hk] at ht
  simpa [isFaint, isAllBlank, hk] using h

theorem Chain.faint_of_isTrivia {ts us : List Token} (h : Chain .standard (ts ++ us))
    (hts : ∀ t ∈ ts, t.isTrivia = true) : ∀ t ∈ ts, t.isFaint = true := by
  intro t ht
  obtain ⟨w, hlead⟩ := h.exists_leads t (List.mem_append_left us ht)
  exact isFaint_of_isTrivia hlead (hts t ht)

/-- Where faint tokens begin, no literal does. -/
theorem Chain.head_of_isFaint {ts us : List Token} (h : Chain .standard (ts ++ us))
    (hts : ∀ t ∈ ts, t.isFaint = true) (hus : ∀ c ∈ (us.flatMap text).head?, c ∉ Lexeme.quotes) :
    ∀ c ∈ ((ts ++ us).flatMap text).head?, c ∉ Lexeme.quotes := by
  cases ts with
  | nil => exact hus
  | cons t ts =>
    intro c hc
    rw [List.cons_append, List.flatMap_cons, List.head?_append_of_ne_nil _ h.1.1] at hc
    by_cases hk : t.kind = .comment
    · exact (h.1.trivia_edges (by simp [isTrivia, hk])).1 c hc
    · have hb : t.isAllBlank = true := by simpa [isFaint, hk] using hts t (by simp)
      exact (not_mem_quotes_of_isBlank
        (List.all_eq_true.mp hb c (List.mem_of_head? hc))).1

/-- The standard separator is the semicolon. -/
theorem Leads.semicolon (h : Leads .standard t w) (hc : Assembly.isCloser t = true) :
    t.kind = .separator ∧ t.text = [';'] := by
  have hlit : ∀ rest : Text, Lexeme.literal? Settings.standard.separator (';' :: rest) = some 1 := by
    intro rest
    simp [Lexeme.literal?, Settings.standard]
  obtain ⟨kind, x, start⟩ := t
  obtain ⟨hne, hcl⟩ := h
  by_cases hk : kind = .separator
  · subst hk
    cases hcl with
    | separator hs => exact ⟨rfl, (Lexeme.literal?_append_iff.mp hs).2⟩
  · have hx : x = [';'] := by simpa [Assembly.isCloser, hk] using hc
    subst hx
    have hnone : Lexeme.literal? Settings.standard.separator ([';'] ++ w) = none := by
      dsimp only at hcl
      cases hcl with
      | separator => exact absurd rfl hk
      | line hs => exact hs
      | block hs => exact hs
      | quote hd => exact hd.separator
      | dollar hd => exact hd.separator
      | identifier hu => exact hu.separator
      | blanks hu => exact hu.separator
      | character hu => exact hu.separator
    rw [List.singleton_append, hlit] at hnone
    cases hnone

theorem Leads.trimEnd_eq (h : Leads .standard t w) (hk : t.kind ≠ .comment)
    (ht : t.isAllBlank = false) : t.trimEnd = t := by
  have hlast : ∃ c ∈ t.text.getLast?, isBlank c = false := by
    by_cases hsep : t.kind = .separator
    · have := (h.semicolon (by simp [Assembly.isCloser, hsep])).2
      exact ⟨';', by simp [this], by decide⟩
    by_cases hws : t.kind = .whitespace
    · have := isFaint_of_isTrivia h (by simp [isTrivia, hws])
      simp [isFaint, hk, ht] at this
    · have heof := h.isEof
      have hsig : t.isSignificant = true := by
        obtain ⟨kind, x, start⟩ := t
        cases kind <;> first | rfl | contradiction
      exact (h.solid_edges hsig ht).2
  have hself : t.text.rdropWhile isBlank = t.text := by
    rw [List.rdropWhile_eq_self_iff]
    intro hne
    obtain ⟨c, hc, hb⟩ := hlast
    rw [List.getLast?_eq_some_getLast hne] at hc
    rw [Option.some.inj hc, hb]
    exact Bool.false_ne_true
  rw [trimEnd, hself]

/-- At the end of the input the blanks at the end of a token and those behind it can be left
out. -/
theorem Leads.trimEnd (h : Leads .standard t w) (hw : ∀ c ∈ w, isBlank c = true)
    (ht : t.isAllBlank = false) : Leads .standard t.trimEnd [] := by
  by_cases hk : t.kind = .comment
  · exact h.trim_comment hk hw
  · rw [h.trimEnd_eq hk ht]
    apply h.shrinks _ (fun _ => .inl rfl)
    apply Text.Shrinks.cut
    intro c hc
    exact (not_mem_quotes_of_isBlank (hw c (List.mem_of_head? hc))).1

theorem exists_trimEnd (t : Token) :
    ∃ r, t.text = t.trimEnd.text ++ r ∧ ∀ c ∈ r, isBlank c = true :=
  ⟨t.text.rtakeWhile isBlank, List.rdropWhile_append_rtakeWhile.symm,
    fun _ hc => List.mem_rtakeWhile_imp hc⟩

theorem trimEnd_ne_nil (h : t.isAllBlank = false) : t.trimEnd.text ≠ [] := by
  intro he
  have := List.all_eq_true.mpr (List.rdropWhile_eq_nil_iff.mp he)
  rw [isAllBlank, Text.isAllBlank, this] at h
  cases h

theorem getLast?_trimEnd (h : t.isAllBlank = false) :
    ∃ c ∈ t.trimEnd.text.getLast?, isBlank c = false := by
  have hlast := List.rdropWhile_last_not isBlank _ (trimEnd_ne_nil h)
  refine ⟨_, List.getLast?_eq_some_getLast (trimEnd_ne_nil h), ?_⟩
  exact Bool.eq_false_iff.mpr hlast

theorem isBlank_of_isAllBlank {ts : List Token} (h : ∀ t ∈ ts, t.isAllBlank = true) :
    ∀ c ∈ ts.flatMap text, isBlank c = true := by
  intro c hc
  obtain ⟨t, ht, hct⟩ := List.mem_flatMap.mp hc
  exact List.all_eq_true.mp (h t ht) c hct

/-- The blanks at the end of a run of tokens can be left out. -/
theorem shrunk_trimEnd {front blanks : List Token} (h : Leads .standard t (blanks.flatMap text))
    (hblanks : ∀ u ∈ blanks, u.isAllBlank = true) (ht : t.isAllBlank = false) :
    ∃ r, Text.isAllBlank r = true ∧
      (front ++ t :: blanks).flatMap text = (front ++ [t.trimEnd]).flatMap text ++ r ∧
        Shrunk (front ++ t :: blanks) (front ++ [t.trimEnd]) := by
  obtain ⟨r, hr, hblank⟩ := exists_trimEnd t
  have htext : (t :: blanks).flatMap text = t.trimEnd.text ++ (r ++ blanks.flatMap text) := by
    rw [← List.append_assoc, ← hr, List.flatMap_cons]
  have hrest : ∀ c ∈ r ++ blanks.flatMap text, isBlank c = true := by
    intro c hc
    rcases List.mem_append.mp hc with hc | hc
    · exact hblank c hc
    · exact isBlank_of_isAllBlank hblanks c hc
  refine ⟨r ++ blanks.flatMap text, List.all_eq_true.mpr hrest, ?_, ?_⟩
  · rw [List.flatMap_append, htext]
    simp
  · apply shrunk_append
    · apply Shrunk.last (h.trimEnd (isBlank_of_isAllBlank hblanks) ht)
      have hcut : Text.Shrinks (r ++ blanks.flatMap text) [] := by
        apply Text.Shrinks.cut
        intro c hc
        exact (not_mem_quotes_of_isBlank (hrest c (List.mem_of_head? hc))).1
      simpa [htext] using hcut.append_left t.trimEnd.text
    · right
      rw [htext, List.head?_append_of_ne_nil _ (trimEnd_ne_nil ht)]
      simp

end Token

namespace Rendering
open Token

variable {last : Option Token} {blanks : List Token}

theorem isAllBlank_added {ts : List Token} (h : ∀ t ∈ ts, t.isFaint = true) :
    Text.isAllBlank (added last blanks ts) = true := by
  induction ts generalizing last blanks with
  | nil => rw [added_nil]; rfl
  | cons t ts ih =>
    have hrest : ∀ u ∈ ts, u.isFaint = true := fun u hu => h u (by simp [hu])
    cases ht : t.isTrivia with
    | true => rw [added_trivia ht]; exact ih hrest
    | false =>
      have hb := isAllBlank_of_isFaint (h t (by simp)) ht
      rw [added_significant ht, Text.isAllBlank_append, Text.isAllBlank_append,
        isAllBlank_filling, hb, ih hrest]
      rfl

/-- Faint tokens at the end of a segment only add blanks. -/
theorem added_append_faint {ts trail : List Token} (h : ∀ t ∈ trail, t.isFaint = true) :
    ∃ r, Text.isAllBlank r = true ∧
      added last blanks (ts ++ trail) = added last blanks ts ++ r := by
  induction ts generalizing last blanks with
  | nil => exact ⟨_, isAllBlank_added h, by rw [List.nil_append, added_nil, List.nil_append]⟩
  | cons t ts ih =>
    rw [List.cons_append]
    cases ht : t.isTrivia with
    | true => rw [added_trivia ht, added_trivia ht]; exact ih
    | false =>
      obtain ⟨r, hr, he⟩ := @ih (some t) []
      exact ⟨r, hr, by simp [added_significant ht, he]⟩

/-- Faint tokens at the front of a segment only add blanks. -/
theorem added_faint_append {lead ts : List Token} {t : Token}
    (h : ∀ u ∈ lead, u.isFaint = true) (ht : t.isTrivia = false) :
    ∃ l, Text.isAllBlank l = true ∧
      added last blanks (lead ++ t :: ts) = l ++ added none [] (t :: ts) := by
  induction lead generalizing last blanks with
  | nil =>
    refine ⟨filling last blanks t, isAllBlank_filling, ?_⟩
    rw [List.nil_append, added_significant ht, added_significant ht, List.append_assoc]
    rfl
  | cons u lead ih =>
    have hrest : ∀ x ∈ lead, x.isFaint = true := fun x hx => h x (by simp [hx])
    rw [List.cons_append]
    cases hu : u.isTrivia with
    | true => rw [added_trivia hu]; exact ih hrest
    | false =>
      have hb := isAllBlank_of_isFaint (h u (by simp)) hu
      obtain ⟨l, hl, he⟩ := @ih (some u) [] hrest
      refine ⟨filling last blanks u ++ u.text ++ l, ?_, ?_⟩
      · rw [Text.isAllBlank_append, Text.isAllBlank_append, isAllBlank_filling, hb, hl]
        rfl
      · simp [added_significant hu, he]

/-- What is condensed up to a significant token ends with it, and is plain before it. -/
theorem condensed_concat {ts : List Token} {v : Token} (hv : v.isTrivia = false)
    (hts : ∀ t ∈ ts, isPlain t = true) :
    ∃ front, condensed last blanks (ts ++ [v]) = front ++ [v] ∧
      ∀ t ∈ front, isPlain t = true := by
  have hfill : ∀ (last : Option Token) (blanks : List Token) (v : Token),
      ∀ t ∈ (filling last blanks v).map blank, isPlain t = true := by
    intro last blanks v t ht
    obtain ⟨c, -, rfl⟩ := List.mem_map.mp ht
    rfl
  induction ts generalizing last blanks with
  | nil => exact ⟨_, condensed_significant hv, hfill last blanks v⟩
  | cons t ts ih =>
    have hrest : ∀ u ∈ ts, isPlain u = true := fun u hu => hts u (by simp [hu])
    rw [List.cons_append]
    cases ht : t.isTrivia with
    | true => rw [condensed_trivia ht]; exact ih hrest
    | false =>
      obtain ⟨front, he, hfront⟩ := @ih (some t) [] hrest
      refine ⟨(filling last blanks t).map blank ++ t :: front, ?_, ?_⟩
      · rw [condensed_significant ht, he, List.append_assoc, List.cons_append]
      · intro u hu
        rcases List.mem_append.mp hu with hu | hu
        · exact hfill last blanks t u hu
        rcases List.mem_cons.mp hu with rfl | hu
        · exact hts u (by simp)
        · exact hfront u hu

theorem segment_eq (ts : List Token) : segment ts = added none [] ts := rfl

/-- The tokens between the blanks that are trimmed off a segment's text. -/
structure Core (ts : List Token) (v : Token) : Prop where
  plain : ∀ t ∈ ts, isPlain t = true
  first : ∀ t ∈ (ts ++ [v]).head?, t.isSignificant = true ∧ t.isAllBlank = false
  last : v.isSignificant = true ∧ v.isAllBlank = false

theorem solid_of_mem {seg ws : List Token} (hc : Chain .standard (seg ++ ws))
    (hp : ∀ t ∈ seg, isPlain t = true) {t : Token} (ht : t ∈ seg) (hf : t.isFaint = false) :
    t.isSignificant = true ∧ t.isAllBlank = false := by
  obtain ⟨w, hlead⟩ := hc.exists_leads t (List.mem_append_left ws ht)
  have htr : t.isTrivia = false := by
    cases htr : t.isTrivia with
    | false => rfl
    | true =>
      rw [isFaint_of_isTrivia hlead htr] at hf
      cases hf
  refine ⟨isSignificant_of_isPlain (hp t ht) hlead.isEof htr, ?_⟩
  simp only [isFaint, Bool.or_eq_false_iff] at hf
  exact hf.2

theorem isFaint_head_dropWhile {seg : List Token} :
    ∀ t ∈ (seg.dropWhile isFaint).head?, t.isFaint = false := by
  intro t ht
  have := List.head?_dropWhile_not isFaint seg
  rwa [Option.mem_def.mp ht] at this

/-- A segment either leaves only blanks, or has a core among faint tokens. -/
theorem exists_core {seg ws : List Token} (hc : Chain .standard (seg ++ ws))
    (hp : ∀ t ∈ seg, isPlain t = true) :
    (∀ t ∈ seg, t.isFaint = true) ∨ ∃ lead ts v trail, seg = lead ++ (ts ++ v :: trail) ∧
      (∀ t ∈ lead, t.isFaint = true) ∧ (∀ t ∈ trail, t.isFaint = true) ∧ Core ts v := by
  have hsub : seg.dropWhile isFaint ⊆ seg := (List.dropWhile_sublist _).subset
  by_cases hne : seg.dropWhile isFaint = []
  · exact .inl (List.dropWhile_eq_nil_iff.mp hne)
  obtain ⟨t, rest, ht⟩ := List.exists_cons_of_ne_nil hne
  have hfirst : t.isFaint = false := isFaint_head_dropWhile t (by rw [ht]; rfl)
  have hkept : (seg.dropWhile isFaint).rdropWhile isFaint ≠ [] := by
    intro he
    have := List.rdropWhile_eq_nil_iff.mp he t (by rw [ht]; simp)
    rw [hfirst] at this
    cases this
  have hlast := List.rdropWhile_last_not isFaint _ hkept
  have hparts : (seg.dropWhile isFaint).rdropWhile isFaint ++
      (seg.dropWhile isFaint).rtakeWhile isFaint = seg.dropWhile isFaint :=
    List.rdropWhile_append_rtakeWhile
  obtain ⟨ts, v, hts⟩ := (List.eq_nil_or_concat' _).resolve_left hkept
  simp only [hts, List.getLast_append_singleton, Bool.not_eq_true] at hlast
  rw [hts] at hparts
  right
  refine ⟨seg.takeWhile isFaint, ts, v, (seg.dropWhile isFaint).rtakeWhile isFaint, ?_,
    List.all_eq_true.mp List.all_takeWhile, fun u hu => List.mem_rtakeWhile_imp hu, ?_, ?_, ?_⟩
  · conv_lhs => rw [← List.takeWhile_append_dropWhile (p := isFaint) (l := seg), ← hparts]
    simp
  · intro u hu
    exact hp u (hsub (by rw [← hparts]; simp [hu]))
  · intro u hu
    have hd : u ∈ (seg.dropWhile isFaint).head? := by
      rw [← hparts, List.head?_append, Option.mem_def.mp hu]
      rfl
    exact solid_of_mem hc hp (hsub (List.mem_of_head? hd)) (isFaint_head_dropWhile u hd)
  · exact solid_of_mem hc hp (hsub (by rw [← hparts]; simp)) hlast

theorem exists_core_begin {seg ws : List Token} {b : Token}
    (hc : Chain .standard (seg ++ b :: ws)) (hp : ∀ t ∈ seg, isPlain t = true)
    (hb : b.isBegin = true) :
    ∃ lead ts, seg = lead ++ ts ∧ (∀ t ∈ lead, t.isFaint = true) ∧ Core ts b := by
  have hsub : seg.dropWhile isFaint ⊆ seg := (List.dropWhile_sublist _).subset
  have hlast := hc.leads.solid_of_isKeyword hb
  refine ⟨seg.takeWhile isFaint, seg.dropWhile isFaint, List.takeWhile_append_dropWhile.symm,
    List.all_eq_true.mp List.all_takeWhile, fun t ht => hp t (hsub ht), ?_, hlast⟩
  intro t ht
  rw [List.head?_append] at ht
  cases hd : (seg.dropWhile isFaint).head? with
  | none =>
    rw [hd] at ht
    obtain rfl := Option.some.inj ht
    exact hlast
  | some u =>
    rw [hd] at ht
    obtain rfl := Option.some.inj ht
    exact solid_of_mem hc hp (hsub (List.mem_of_head? hd)) (isFaint_head_dropWhile u hd)

namespace Core
variable {ts : List Token} {v : Token}

theorem exists_cons (h : Core ts v) :
    ∃ t rest, ts ++ [v] = t :: rest ∧ t.isSignificant = true ∧ t.isAllBlank = false := by
  obtain ⟨t, rest, he⟩ := List.exists_cons_of_ne_nil (List.append_ne_nil_of_right_ne_nil ts
    (List.cons_ne_nil v []))
  exact ⟨t, rest, he, h.first t (by rw [he]; rfl)⟩

/-- The core and the faint tokens before it make up a text that begins with blanks. -/
theorem segment_append (h : Core ts v) {lead : List Token}
    (hlead : ∀ t ∈ lead, t.isFaint = true) :
    ∃ l, Text.isAllBlank l = true ∧
      segment (lead ++ (ts ++ [v])) = l ++ segment (ts ++ [v]) := by
  obtain ⟨t, rest, he, hsig, -⟩ := h.exists_cons
  rw [he, segment_eq, segment_eq]
  exact added_faint_append hlead (isTrivia_eq_false_of_isSignificant hsig)

theorem head_segment (h : Core ts v) {s : Settings} {ws : List Token}
    (hc : Chain s (ts ++ v :: ws)) : ∃ c ∈ (segment (ts ++ [v])).head?, isBlank c = false := by
  obtain ⟨t, rest, he, hsig, hb⟩ := h.exists_cons
  have hall : ts ++ v :: ws = t :: (rest ++ ws) := by
    rw [← List.cons_append, ← he, List.append_assoc]
    rfl
  rw [hall] at hc
  have htext : segment (t :: rest) = t.text ++ added (some t) [] rest :=
    added_significant (isTrivia_eq_false_of_isSignificant hsig) none [] rest
  rw [he, htext]
  exact Text.head_append (hc.1.solid_edges hsig hb).1 _

theorem getLast?_segment (h : Core ts v) {s : Settings} {ws : List Token}
    (hc : Chain s (ts ++ v :: ws)) :
    ∃ c ∈ (segment (ts ++ [v])).getLast?, isBlank c = false := by
  obtain ⟨front, hf, -⟩ := @condensed_concat none [] ts v
    (isTrivia_eq_false_of_isSignificant h.last.1) h.plain
  have htext : segment (ts ++ [v]) = front.flatMap text ++ v.text := by
    have := text_condensed none [] (ts ++ [v])
    rw [hf] at this
    rw [List.flatMap_append, List.flatMap_singleton] at this
    exact this.symm
  rw [htext]
  exact Text.getLast_append (hc.leads.solid_edges h.last.1 h.last.2).2 _

end Core
end Rendering
end SqlStatements
