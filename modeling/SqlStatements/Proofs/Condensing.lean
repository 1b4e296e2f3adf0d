import SqlStatements.Proofs.Rendering
import SqlStatements.Proofs.Rereading

namespace SqlStatements

namespace Token
open Lexeme

/-- The second run of tokens spells what is left of the text of the first one. Its end is cut
off, trivia are replaced by single blanks, and the last token may lose its own end. -/
inductive Shrunk : List Token → List Token → Prop where
  | cut {ts : List Token} : (∀ c ∈ (ts.flatMap text).head?, c ∉ quotes) → Shrunk ts []
  | keep {t : Token} {ts us : List Token} :
      (t.isTrivia = true → us.flatMap text = [] ∨
        (us.flatMap text).head? = (ts.flatMap text).head?) →
      Shrunk ts us → Shrunk (t :: ts) (t :: us)
  | gap {run ts us : List Token} {t : Token} {c : Char} : run ≠ [] →
      (∀ r ∈ run, r.isTrivia = true) → t.isSignificant = true → isAsciiBlank c = true →
      Shrunk (t :: ts) (t :: us) → Shrunk (run ++ t :: ts) (⟨.whitespace, [c], 0⟩ :: t :: us)
  | last {t u : Token} {ts : List Token} : Leads .standard u [] →
      Text.Shrinks ((t :: ts).flatMap text) u.text → Shrunk (t :: ts) [u]

theorem Leads.head_of_isSignificant {t : Token} {w : Text} (h : Leads .standard t w)
    (ht : t.isSignificant = true) : ∀ c ∈ t.text.head?, isAsciiBlank c = false := by
  obtain ⟨⟨c, hc, hb⟩, -⟩ := h.solid_ends ht
  intro d hd
  obtain rfl := Option.some.inj (hc.symm.trans hd)
  exact hb

namespace Shrunk
variable {ts us : List Token}

theorem shrinks (h : Shrunk ts us) (hc : Chain .standard ts) :
    Text.Shrinks (ts.flatMap text) (us.flatMap text) := by
  induction h with
  | cut hcut => exact .cut hcut
  | @keep t ts us _ _ ih =>
    rw [List.flatMap_cons, List.flatMap_cons]
    exact (ih hc.2).append_left t.text
  | @gap run ts us t c hrun htrivia _ hblank _ ih =>
    have hrest : (t :: ts).flatMap text ≠ [] := by simp [hc.leads.1]
    rw [List.flatMap_append, List.flatMap_cons]
    apply Text.Shrinks.gap hblank _ _ _ (ih hc.drop)
    · obtain ⟨r, run, rfl⟩ := List.exists_cons_of_ne_nil hrun
      simp [hc.1.1]
    · obtain ⟨r, run, rfl⟩ := List.exists_cons_of_ne_nil hrun
      rw [List.flatMap_cons, List.head?_append_of_ne_nil _ hc.1.1]
      exact (hc.1.trivia_edges (htrivia r (by simp))).1
    · obtain ⟨run, r, rfl⟩ := (List.eq_nil_or_concat' run).resolve_left hrun
      rw [List.append_assoc] at hc
      have hr : Leads .standard r ((t :: ts).flatMap text) := hc.leads
      rw [List.flatMap_append, List.flatMap_singleton, List.getLast?_append_of_ne_nil _ hr.1]
      exact (hr.trivia_edges (htrivia r (by simp))).2 hrest
  | last _ hs => simpa using hs

/-- The tokens are read back from what they spell. -/
theorem chain (h : Shrunk ts us) (hc : Chain .standard ts) : Chain .standard us := by
  induction h with
  | cut => trivial
  | keep hhead hts ih => exact ⟨hc.1.shrinks (hts.shrinks hc.2) hhead, ih hc.2⟩
  | @gap run ts us t c _ _ hsig hblank _ ih =>
    have ht : Leads .standard t (ts.flatMap text) := hc.leads
    refine ⟨?_, ih hc.drop⟩
    apply leads_blanks (by simp) (by simpa using hblank)
    rw [List.flatMap_cons, List.head?_append_of_ne_nil _ ht.1]
    exact ht.head_of_isSignificant hsig
  | last hu => exact ⟨by simpa using hu, trivial⟩

end Shrunk

/-- Tokens whose text is kept, up to where the text is cut off. -/
theorem shrunk_append {ts ws us : List Token} (h : Shrunk ws us)
    (hhead : us.flatMap text = [] ∨ (us.flatMap text).head? = (ws.flatMap text).head?) :
    Shrunk (ts ++ ws) (ts ++ us) := by
  induction ts with
  | nil => exact h
  | cons t ts ih =>
    rw [List.cons_append, List.cons_append]
    apply Shrunk.keep _ ih
    intro _
    by_cases hts : ts.flatMap text = []
    · simpa [hts] using hhead
    · right
      rw [List.flatMap_append, List.flatMap_append, List.head?_append_of_ne_nil _ hts,
        List.head?_append_of_ne_nil _ hts]

/-- If comments stand at the front of a significant token, then so do blanks. -/
def FrontSpaced (ts : List Token) : Prop :=
  (∃ v ∈ (ts.dropWhile isTrivia).head?, v.isSignificant = true) →
    (∃ c ∈ ts.takeWhile isTrivia, c.kind = .comment) →
      ∃ w ∈ ts.takeWhile isTrivia, w.kind = .whitespace

end Token

/-- Outside of blocks, comments between two significant tokens do not stand alone. -/
def Assembly.CommentsSpaced (a : Assembly) : List Token → Prop
  | [] => True
  | u :: ts =>
    (u.isSignificant = true → (a.read u).mode = .standard → Token.FrontSpaced ts) ∧
      (a.read u).CommentsSpaced ts

instance (ts : List Token) : Decidable (Token.FrontSpaced ts) :=
  inferInstanceAs (Decidable (_ → _))

instance Assembly.decidableCommentsSpaced :
    (a : Assembly) → (ts : List Token) → Decidable (a.CommentsSpaced ts)
  | _, [] => isTrue trivial
  | a, u :: ts =>
    have := decidableCommentsSpaced (a.read u) ts
    inferInstanceAs (Decidable (_ ∧ _))

namespace Rendering
open Token

def blank (c : Char) : Token := ⟨.whitespace, [c], 0⟩

/-- The tokens of a segment's text: significant ones, and blanks in the gaps between them. -/
def condensed (last : Option Token) (blanks : List Token) : List Token → List Token
  | [] => []
  | t :: ts =>
    if t.kind = .comment then condensed last blanks ts
    else if t.kind = .whitespace then condensed last (blanks ++ [t]) ts
    else (filling last blanks t).map blank ++ t :: condensed (some t) [] ts

def blanksOf (run : List Token) : List Token := run.filter (·.kind = .whitespace)

variable {last : Option Token} {blanks ts : List Token} {t : Token}

theorem condensed_trivia (h : t.isTrivia = true) :
    condensed last blanks (t :: ts) = condensed last (blanks ++ blanksOf [t]) ts := by
  obtain ⟨kind, text, start⟩ := t
  cases kind <;> first | (cases h; done) | simp [condensed, blanksOf]

theorem condensed_significant (h : t.isTrivia = false) :
    condensed last blanks (t :: ts) =
      (filling last blanks t).map blank ++ t :: condensed (some t) [] ts := by
  obtain ⟨hc, hw⟩ : t.kind ≠ .comment ∧ t.kind ≠ .whitespace := by
    simpa [Token.isTrivia] using h
  simp [condensed, hc, hw]

theorem added_trivia (h : t.isTrivia = true) :
    added last blanks (t :: ts) = added last (blanks ++ blanksOf [t]) ts := by
  by_cases hc : t.kind = .comment
  · rw [added_comment hc]
    simp [blanksOf, hc]
  · have hw : t.kind = .whitespace := by simpa [Token.isTrivia, hc] using h
    rw [added_whitespace hw]
    simp [blanksOf, hw]

theorem filling_some {u : Token} (h : blanks ≠ []) :
    ∃ c, filling (some u) blanks t = [c] ∧ isAsciiBlank c = true :=
  ⟨_, Assembly.between_eq_filler h u t, Assembly.isAsciiBlank_filler _ _ _⟩

theorem isAllBlank_filling : Text.isAllBlank (filling last blanks t) = true := by
  cases last with
  | none => rfl
  | some u =>
    by_cases h : blanks = []
    · subst h
      rfl
    · obtain ⟨c, hc, hb⟩ := filling_some (t := t) (u := u) h
      rw [hc]
      simp [Text.isAllBlank, isBlank_of_isAsciiBlank hb]

theorem flatMap_text_map_blank (x : Text) : (x.map blank).flatMap text = x := by
  induction x with
  | nil => rfl
  | cons c x ih => simpa [blank] using ih

/-- The condensed tokens spell what the segment adds to its statement. -/
theorem text_condensed (last : Option Token) (blanks ts : List Token) :
    (condensed last blanks ts).flatMap text = added last blanks ts := by
  induction ts generalizing last blanks with
  | nil => rw [added_nil]; rfl
  | cons t ts ih =>
    cases ht : t.isTrivia with
    | true => rw [condensed_trivia ht, added_trivia ht, ih]
    | false =>
      rw [condensed_significant ht, added_significant ht, List.flatMap_append,
        flatMap_text_map_blank, List.flatMap_cons, ih, List.append_assoc]

theorem added_blanks {run : List Token} (h : ∀ r ∈ run, r.kind = .whitespace) :
    added last blanks (run ++ ts) = added last (blanks ++ run) ts := by
  induction run generalizing blanks with
  | nil => simp
  | cons r run ih =>
    rw [List.cons_append, added_whitespace (h r (by simp)), ih (fun u hu => h u (by simp [hu])),
      List.append_assoc]
    rfl

/-- A gap that is filled is filled in the same way again. -/
theorem filling_filling : filling last ((filling last blanks t).map blank) t =
    filling last blanks t := by
  cases last with
  | none => rfl
  | some u =>
    unfold filling between
    cases blanks.getLast? with
    | none => rfl
    | some w =>
      dsimp only
      by_cases h : w.text.any isLineBreak = true ∧ t.kind = .quotedString ∧
          (u.text.getLast? = some '\x27' ∨ u.text.getLast? = some '"')
      · rw [if_pos h]
        exact if_pos ⟨rfl, h.2⟩
      · rw [if_neg h]
        exact if_neg (by simp [blank, isLineBreak])

/-- What is condensed adds the same as what it comes from. -/
theorem added_condensed (last : Option Token) (blanks ts : List Token) :
    added last [] (condensed last blanks ts) = added last blanks ts := by
  induction ts generalizing last blanks with
  | nil => rw [condensed, added_nil, added_nil]
  | cons t ts ih =>
    cases ht : t.isTrivia with
    | true => rw [condensed_trivia ht, added_trivia ht, ih]
    | false =>
      have hblank : ∀ r ∈ (filling last blanks t).map blank, r.kind = .whitespace := by
        intro r hr
        obtain ⟨c, -, rfl⟩ := List.mem_map.mp hr
        rfl
      rw [condensed_significant ht, added_blanks hblank, added_significant ht,
        added_significant ht, ih, List.nil_append, filling_filling]

/-- A gap between two significant tokens shrinks to the blank that fills it. -/
theorem shrunk_gap {u v : Token} {run ws us : List Token}
    (hfront : FrontSpaced (run ++ v :: ws)) (hrun : ∀ r ∈ run, r.isTrivia = true)
    (hv : v.isSignificant = true) (h : Shrunk (v :: ws) (v :: us)) :
    Shrunk (run ++ v :: ws) ((filling (some u) (blanksOf run) v).map blank ++ v :: us) := by
  by_cases hne : run = []
  · subst hne
    exact h
  have hvt := isTrivia_eq_false_of_isSignificant hv
  have htake : (run ++ v :: ws).takeWhile isTrivia = run := by
    rw [List.takeWhile_append_of_pos hrun, List.takeWhile_cons_of_neg (by simp [hvt]),
      List.append_nil]
  have hdrop : (run ++ v :: ws).dropWhile isTrivia = v :: ws := by
    rw [List.dropWhile_append_of_pos hrun, List.dropWhile_cons_of_neg (by simp [hvt])]
  rw [FrontSpaced, htake, hdrop] at hfront
  obtain ⟨w, hw, hk⟩ : ∃ w ∈ run, w.kind = .whitespace := by
    obtain ⟨r, run, rfl⟩ := List.exists_cons_of_ne_nil hne
    by_cases hc : r.kind = .comment
    · exact hfront ⟨v, rfl, hv⟩ ⟨r, by simp, hc⟩
    · have hr := hrun r (by simp)
      exact ⟨r, by simp, by simpa [isTrivia, hc] using hr⟩
  have hblanks : blanksOf run ≠ [] := by
    intro he
    have : w ∈ blanksOf run := List.mem_filter.mpr ⟨hw, by simp [hk]⟩
    rw [he] at this
    cases this
  obtain ⟨c, hc, hb⟩ := filling_some (u := u) (t := v) hblanks
  rw [hc]
  exact .gap hne hrun hv hb h

/-- Behind a significant token `u` and the trivia `run`, all up to another significant token
shrinks to what is condensed of it. -/
theorem shrunk_condensed {a : Assembly} {u v : Token} {run ts ws us : List Token}
    (hm : a.mode = .standard) (hs : a.CommentsSpaced (ts ++ v :: ws))
    (hfront : FrontSpaced (run ++ (ts ++ v :: ws))) (hrun : ∀ r ∈ run, r.isTrivia = true)
    (hts : ∀ t ∈ ts, isPlain t = true ∧ t.isEof = false) (hv : v.isSignificant = true)
    (h : Shrunk (v :: ws) (v :: us)) :
    Shrunk (run ++ (ts ++ v :: ws))
      (condensed (some u) (blanksOf run) (ts ++ [v]) ++ us) := by
  induction ts generalizing a u run with
  | nil =>
    rw [List.nil_append, List.nil_append,
      condensed_significant (isTrivia_eq_false_of_isSignificant hv), List.append_assoc]
    exact shrunk_gap hfront hrun hv h
  | cons t ts ih =>
    obtain ⟨hp, he⟩ := hts t (by simp)
    have hrest : ∀ x ∈ ts, isPlain x = true ∧ x.isEof = false := fun x hx => hts x (by simp [hx])
    have hnext := Assembly.mode_read_plain hm hp he
    cases htr : t.isTrivia with
    | true =>
      have hmove : ∀ xs : List Token, run ++ (t :: ts ++ xs) = run ++ [t] ++ (ts ++ xs) := by simp
      have hblanks : blanksOf run ++ blanksOf [t] = blanksOf (run ++ [t]) :=
        (List.filter_append run [t]).symm
      rw [hmove] at hfront ⊢
      rw [List.cons_append, condensed_trivia htr, hblanks]
      apply ih hnext hs.2 hfront _ hrest
      intro r hr
      rcases List.mem_append.mp hr with hr | hr
      · exact hrun r hr
      · rw [List.mem_singleton.mp hr]
        exact htr
    | false =>
      have hsig := isSignificant_of_isPlain hp he htr
      have hlater : Shrunk ([] ++ (ts ++ v :: ws))
          (condensed (some t) (blanksOf []) (ts ++ [v]) ++ us) :=
        ih hnext hs.2 (hs.1 hsig hnext) (by simp) hrest
      rw [List.cons_append, List.cons_append, condensed_significant htr, List.append_assoc]
      refine shrunk_gap hfront hrun hsig (.keep ?_ hlater)
      simp [htr]

/-- A segment from a significant token to another one shrinks to what is condensed of it. -/
theorem shrunk_segment {a : Assembly} {v : Token} {ts ws us : List Token}
    (hm : a.mode = .standard) (hs : a.CommentsSpaced (ts ++ v :: ws))
    (hts : ∀ t ∈ ts, isPlain t = true ∧ t.isEof = false) (hv : v.isSignificant = true)
    (hfirst : ∀ t ∈ ts.head?, t.isSignificant = true) (h : Shrunk (v :: ws) (v :: us)) :
    Shrunk (ts ++ v :: ws) (condensed none [] (ts ++ [v]) ++ us) := by
  cases ts with
  | nil =>
    rw [List.nil_append, List.nil_append,
      condensed_significant (isTrivia_eq_false_of_isSignificant hv)]
    exact h
  | cons t ts =>
    obtain ⟨hp, he⟩ := hts t (by simp)
    have hsig := hfirst t rfl
    have hnext := Assembly.mode_read_plain hm hp he
    have hlater : Shrunk ([] ++ (ts ++ v :: ws))
        (condensed (some t) (blanksOf []) (ts ++ [v]) ++ us) :=
      shrunk_condensed hnext hs.2 (hs.1 hsig hnext) (by simp) (fun x hx => hts x (by simp [hx])) hv h
    rw [List.cons_append, List.cons_append,
      condensed_significant (isTrivia_eq_false_of_isSignificant hsig)]
    exact .keep (by simp [isTrivia_eq_false_of_isSignificant hsig]) hlater

end Rendering
end SqlStatements
