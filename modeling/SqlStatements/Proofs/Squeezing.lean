import Mathlib.Algebra.Order.BigOperators.Group.List
import Mathlib.Algebra.Order.Group.Nat
import SqlStatements.Proofs.Assembling
import SqlStatements.Proofs.Trimming

namespace SqlStatements

namespace Text

/-- The text with one space in place of each run of ASCII blanks. `blank` tells whether one
stands right before the text. -/
def squeeze (blank : Bool) : Text → Text
  | [] => []
  | c :: cs =>
    if isAsciiBlank c then if blank then squeeze true cs else ' ' :: squeeze true cs
    else c :: squeeze false cs

/-- The statement that a line makes. -/
def squeezed (t : Text) : List Text := (squeeze false t).kept

/-- The text cut at each line break, unless a blank of ASCII stands before it in the same piece.
`blank` tells whether one stands right before the text. -/
def pieces (blank : Bool) : Text → List Text
  | [] => [[]]
  | c :: cs =>
    if c = '\n' ∧ blank = false then [] :: pieces false cs
    else (pieces (isAsciiBlank c) cs).modifyHead (c :: ·)

def lines (t : Text) : List Text := t.splitOn '\n'

def isOneLine (t : Text) : Bool := (t.lines.filter fun l => !l.isAllBlank).length ≤ 1

section Kept
variable {l r : Text}

theorem kept_append_left (hl : isAllBlank l = true) (t : Text) : (l ++ t).kept = t.kept := by
  rw [kept, kept, trim_append_left hl]

theorem kept_append_right (hr : isAllBlank r = true) (t : Text) : (t ++ r).kept = t.kept := by
  rw [kept, kept, trim_append_right hr]

theorem length_kept (t : Text) : t.kept.length = if t.isAllBlank then 0 else 1 := by
  split
  · rename_i ht
    rw [kept, trim_eq_nil ht]
    rfl
  · rename_i ht
    obtain ⟨c, hc, hb⟩ : ∃ c ∈ t, isBlank c = false := by simpa [isAllBlank] using ht
    rw [kept_of_ne_nil (trim_ne_nil hc hb)]
    rfl

end Kept

section Squeeze
variable {x : Text}

theorem squeeze_append (blank : Bool) (x y : Text) :
    ∃ blank', squeeze blank (x ++ y) = squeeze blank x ++ squeeze blank' y := by
  induction x generalizing blank with
  | nil => exact ⟨blank, rfl⟩
  | cons c x ih =>
    rw [List.cons_append, squeeze, squeeze]
    split
    · obtain ⟨blank', h⟩ := ih true
      refine ⟨blank', ?_⟩
      split
      · exact h
      · rw [h, List.cons_append]
    · obtain ⟨blank', h⟩ := ih false
      exact ⟨blank', by rw [h, List.cons_append]⟩

theorem squeeze_blanks (h : ∀ c ∈ x, isAsciiBlank c = true) (y : Text) :
    squeeze true (x ++ y) = squeeze true y := by
  induction x with
  | nil => rfl
  | cons c x ih =>
    rw [List.cons_append, squeeze, if_pos (h c (by simp)), if_pos rfl]
    exact ih (fun d hd => h d (by simp [hd]))

theorem squeeze_blanks_false (hx : x ≠ []) (h : ∀ c ∈ x, isAsciiBlank c = true) (y : Text) :
    squeeze false (x ++ y) = ' ' :: squeeze true y := by
  cases x with
  | nil => exact absurd rfl hx
  | cons c x =>
    rw [List.cons_append, squeeze, if_pos (h c (by simp)), if_neg (by simp),
      squeeze_blanks (fun d hd => h d (by simp [hd]))]

theorem squeeze_solid (hx : x ≠ []) (h : ∀ c ∈ x, isAsciiBlank c = false) (blank : Bool)
    (y : Text) : squeeze blank (x ++ y) = x ++ squeeze false y := by
  induction x generalizing blank with
  | nil => exact absurd rfl hx
  | cons c x ih =>
    rw [List.cons_append, squeeze, if_neg (by simp [h c (by simp)]), List.cons_append]
    cases x with
    | nil => rfl
    | cons d x => rw [ih (by simp) (fun e he => h e (by simp [he]))]

theorem isAllBlank_squeeze (blank : Bool) (t : Text) :
    isAllBlank (squeeze blank t) = isAllBlank t := by
  have hspace : isBlank ' ' = true := by decide
  unfold isAllBlank
  induction t generalizing blank with
  | nil => rfl
  | cons c t ih =>
    rw [squeeze, List.all_cons]
    split
    · rename_i hc
      rw [isBlank_of_isAsciiBlank hc, Bool.true_and]
      split
      · exact ih true
      · rw [List.all_cons, hspace, Bool.true_and, ih]
    · rw [List.all_cons, ih]

theorem kept_squeeze (blank : Bool) (t : Text) : (squeeze blank t).kept = t.squeezed := by
  cases blank with
  | false => rfl
  | true =>
    cases t with
    | nil => rfl
    | cons c t =>
      rw [squeezed, squeeze, squeeze]
      split
      · exact (kept_append_left (l := [' ']) (by decide) _).symm
      · rfl

theorem length_squeezed (t : Text) : t.squeezed.length = if t.isAllBlank then 0 else 1 := by
  rw [squeezed, length_kept, isAllBlank_squeeze]

theorem squeezed_eq_nil {t : Text} (h : t.isAllBlank = true) : t.squeezed = [] := by
  rw [← List.length_eq_zero_iff, length_squeezed, if_pos h]

/-- Blanks around a text make no difference to its statement. -/
theorem squeezed_append_left {l : Text} (hl : isAllBlank l = true) (t : Text) :
    squeezed (l ++ t) = t.squeezed := by
  obtain ⟨blank, h⟩ := squeeze_append false l t
  rw [squeezed, h, kept_append_left (by rw [isAllBlank_squeeze, hl]), kept_squeeze]

theorem squeezed_append_right {r : Text} (hr : isAllBlank r = true) (t : Text) :
    squeezed (t ++ r) = t.squeezed := by
  obtain ⟨blank, h⟩ := squeeze_append false t r
  rw [squeezed, h, kept_append_right (by rw [isAllBlank_squeeze, hr]), squeezed]

end Squeeze

section Lines

theorem lines_cons_break (t : Text) : lines ('\n' :: t) = [] :: lines t :=
  List.splitOn_append_cons_self [] t

theorem lines_cons {c : Char} (hc : c ≠ '\n') (t : Text) :
    lines (c :: t) = (lines t).modifyHead (c :: ·) := by
  rw [lines, List.splitOn_cons_eq_if_modifyHead, if_neg (by simpa using hc)]
  rfl

theorem isAllBlank_intercalate {ls : List Text} (h : ∀ l ∈ ls, isAllBlank l = true) :
    isAllBlank (['\n'].intercalate ls) = true := by
  induction ls with
  | nil => rfl
  | cons l ls ih =>
    have hl := h l (by simp)
    have hls := ih fun m hm => h m (by simp [hm])
    cases ls with
    | nil => simpa using hl
    | cons m ls =>
      have hbreak : isAllBlank ['\n'] = true := by decide
      rw [List.intercalate_cons_cons, isAllBlank_append, isAllBlank_append, hl, hls, hbreak]
      rfl

theorem length_flatMap_squeezed (ls : List Text) :
    (ls.flatMap squeezed).length = (ls.filter fun l => !l.isAllBlank).length := by
  induction ls with
  | nil => rfl
  | cons l ls ih =>
    rw [List.flatMap_cons, List.length_append, length_squeezed, ih]
    cases hl : l.isAllBlank with
    | true => simp [hl]
    | false => simp [hl, Nat.add_comm]

/-- Lines of which only one is not blank make the same statement together. -/
theorem squeezed_intercalate {ls : List Text} (hne : ls ≠ [])
    (h : (ls.filter fun l => !l.isAllBlank).length ≤ 1) :
    squeezed (['\n'].intercalate ls) = ls.flatMap squeezed := by
  induction ls with
  | nil => exact absurd rfl hne
  | cons l ls ih =>
    cases ls with
    | nil => simp
    | cons m ls =>
      rw [List.intercalate_cons_cons, List.flatMap_cons]
      cases hl : l.isAllBlank with
      | true =>
        have hblank : isAllBlank (l ++ ['\n']) = true := by
          rw [isAllBlank_append, hl]
          decide
        rw [squeezed_append_left hblank, squeezed_eq_nil hl, List.nil_append]
        exact ih (by simp) (by simpa [hl] using h)
      | false =>
        have hrest : ∀ k ∈ m :: ls, isAllBlank k = true := by
          rw [List.filter_cons_of_pos (by simp [hl]), List.length_cons] at h
          simpa using List.length_eq_zero_iff.mp (Nat.le_zero.mp (Nat.le_of_succ_le_succ h))
        have hblank : isAllBlank (['\n'] ++ ['\n'].intercalate (m :: ls)) = true := by
          rw [isAllBlank_append, isAllBlank_intercalate hrest]
          decide
        have hnone : (m :: ls).flatMap squeezed = [] :=
          List.flatMap_eq_nil_iff.mpr fun k hk => squeezed_eq_nil (hrest k hk)
        rw [List.append_assoc, squeezed_append_right hblank, hnone, List.append_nil]

/-- A piece makes the statements of its lines exactly if it makes as many of them. -/
theorem squeezed_eq_iff (t : Text) :
    t.squeezed = t.lines.flatMap squeezed ↔ t.isOneLine = true := by
  rw [isOneLine, decide_eq_true_iff]
  constructor
  · intro h
    rw [← length_flatMap_squeezed, ← h, length_squeezed]
    split <;> decide
  · intro h
    have := squeezed_intercalate (List.splitOn_ne_nil '\n' t) h
    rwa [List.intercalate_splitOn] at this

theorem length_squeezed_lt {t : Text} (h : t.isOneLine = false) :
    t.squeezed.length < (t.lines.flatMap squeezed).length := by
  rw [isOneLine, decide_eq_false_iff_not] at h
  rw [length_flatMap_squeezed, length_squeezed]
  split <;> omega

end Lines

section Pieces
variable {x : Text}

theorem modifyHead_nil_append (ps : List Text) : ps.modifyHead ([] ++ ·) = ps :=
  congrFun List.modifyHead_id ps

theorem pieces_ne_nil (blank : Bool) (t : Text) : pieces blank t ≠ [] := by
  induction t generalizing blank with
  | nil => simp [pieces]
  | cons c t ih =>
    rw [pieces]
    split
    · simp
    · simpa using ih (isAsciiBlank c)

/-- No line is lost or changed by the cuts that are left out. -/
theorem flatMap_lines_pieces (blank : Bool) (t : Text) :
    (pieces blank t).flatMap lines = t.lines := by
  induction t generalizing blank with
  | nil => rfl
  | cons c t ih =>
    rw [pieces]
    split
    · rename_i hc
      rw [hc.1, lines_cons_break, List.flatMap_cons, ih]
      rfl
    · obtain ⟨p, ps, hp⟩ := List.exists_cons_of_ne_nil (pieces_ne_nil (isAsciiBlank c) t)
      have hlines := ih (isAsciiBlank c)
      rw [hp, List.flatMap_cons] at hlines
      rw [hp, List.modifyHead_cons, List.flatMap_cons]
      by_cases hc : c = '\n'
      · rw [hc, lines_cons_break, lines_cons_break, ← hlines, List.cons_append]
      · rw [lines_cons hc, lines_cons hc, ← hlines]
        obtain ⟨l, ls, hl⟩ := List.exists_cons_of_ne_nil (List.splitOn_ne_nil '\n' p)
        rw [lines, hl]
        rfl

theorem pieces_blanks (h : ∀ c ∈ x, isAsciiBlank c = true) (y : Text) :
    pieces true (x ++ y) = (pieces true y).modifyHead (x ++ ·) := by
  induction x with
  | nil => exact (modifyHead_nil_append _).symm
  | cons c x ih =>
    rw [List.cons_append, pieces, if_neg (by simp), h c (by simp),
      ih (fun d hd => h d (by simp [hd])), List.modifyHead_modifyHead]
    rfl

theorem pieces_solid (hx : x ≠ []) (h : ∀ c ∈ x, isAsciiBlank c = false) (blank : Bool)
    (y : Text) : pieces blank (x ++ y) = (pieces false y).modifyHead (x ++ ·) := by
  induction x generalizing blank with
  | nil => exact absurd rfl hx
  | cons c x ih =>
    have hc := h c (by simp)
    have hbreak : c ≠ '\n' := by
      rintro rfl
      cases hc
    rw [List.cons_append, pieces, if_neg (by simp [hbreak]), hc]
    cases x with
    | nil => rfl
    | cons d x =>
      rw [ih (by simp) (fun e he => h e (by simp [he])), List.modifyHead_modifyHead]
      rfl

/-- Only a line break right behind a blank tells what stands before the text. -/
theorem pieces_of_head {y : Text} (h : ∀ c ∈ y.head?, isAsciiBlank c = false) (blank : Bool) :
    pieces blank y = pieces false y := by
  cases y with
  | nil => rfl
  | cons c y =>
    have hbreak : c ≠ '\n' := by
      rintro rfl
      cases h _ rfl
    rw [pieces, pieces, if_neg (by simp [hbreak]), if_neg (by simp [hbreak])]

theorem pieces_append {y : Text} (h : ∀ c ∈ x, isAsciiBlank c = true) (hx : x.head? ≠ some '\n')
    (hy : ∀ c ∈ y.head?, isAsciiBlank c = false) :
    pieces false (x ++ y) = (pieces false y).modifyHead (x ++ ·) := by
  cases x with
  | nil => exact (modifyHead_nil_append _).symm
  | cons c x =>
    have hbreak : c ≠ '\n' := by simpa using hx
    rw [List.cons_append, pieces, if_neg (by simp [hbreak]), h c (by simp),
      pieces_blanks (fun d hd => h d (by simp [hd])), pieces_of_head hy true,
      List.modifyHead_modifyHead]
    rfl

/-- A piece never makes more statements than its lines, so the statements agree exactly if they
agree piece by piece. -/
theorem flatMap_squeezed_pieces_iff (t : Text) :
    (pieces false t).flatMap squeezed = t.lines.flatMap squeezed ↔
      ∀ p ∈ pieces false t, p.isOneLine = true := by
  rw [← flatMap_lines_pieces false t, List.flatMap_assoc]
  constructor
  · intro h p hp
    by_contra hmore
    have hle : ∀ q ∈ pieces false t, q.squeezed.length ≤ (q.lines.flatMap squeezed).length := by
      intro q _
      by_cases hq : q.isOneLine = true
      · rw [(squeezed_eq_iff q).mpr hq]
      · exact (length_squeezed_lt (by simpa using hq)).le
    have hlt := List.sum_lt_sum _ _ hle ⟨p, hp, length_squeezed_lt (by simpa using hmore)⟩
    rw [← List.length_flatMap, ← List.length_flatMap, h] at hlt
    exact absurd hlt (Nat.lt_irrefl _)
  · intro h
    exact List.flatMap_congr fun p hp => (squeezed_eq_iff p).mpr (h p hp)

theorem lines_append_break {l : Text} (hl : '\n' ∉ l) (t : Text) :
    lines (l ++ '\n' :: t) = l :: lines t :=
  List.splitOn_append_cons_self_of_not_mem hl t

theorem lines_of_notMem {l : Text} (hl : '\n' ∉ l) : lines l = [l] :=
  List.splitOn_eq_singleton hl

theorem isOneLine_of_notMem {l : Text} (hl : '\n' ∉ l) : l.isOneLine = true := by
  rw [isOneLine, lines_of_notMem hl, decide_eq_true_iff]
  exact List.length_filter_le _ [l]

/-- No line ends with an ASCII blank, unless it is blank itself. -/
def EndsSolid (t : Text) : Prop :=
  ∀ l ∈ t.lines, l.isAllBlank = false → ∀ c ∈ l.getLast?, isAsciiBlank c = false

theorem EndsSolid.isAllBlank {l t : Text} (h : EndsSolid t) (hl : l ∈ t.lines)
    (hlast : ∀ c ∈ l.getLast?, isAsciiBlank c = true) : l.isAllBlank = true := by
  cases hb : l.isAllBlank with
  | true => rfl
  | false =>
    have hne : l ≠ [] := by
      rintro rfl
      cases hb
    have hend := List.getLast?_eq_some_getLast hne
    have hsolid := h l hl hb _ hend
    rw [hlast _ hend] at hsolid
    cases hsolid

theorem EndsSolid.of_append {l t : Text} (h : EndsSolid (l ++ '\n' :: t)) (hl : '\n' ∉ l) :
    EndsSolid t := by
  unfold EndsSolid at h
  rw [lines_append_break hl] at h
  intro k hk
  exact h k (List.mem_cons_of_mem l hk)

/-- A line that has been begun is part of the first piece. A line that is not blank does not let
the piece go on behind it. -/
theorem isOneLine_of_begun {begun t : Text} {blank : Bool} (h : EndsSolid (begun ++ t))
    (hbegun : '\n' ∉ begun) (hblank : ∀ c ∈ begun.getLast?, isAsciiBlank c = blank) :
    ∀ p ∈ (pieces blank t).modifyHead (begun ++ ·), p.isOneLine = true := by
  induction t generalizing begun blank with
  | nil => simpa [pieces] using isOneLine_of_notMem hbegun
  | cons c t ih =>
    rw [pieces]
    by_cases hc : c = '\n'
    · subst hc
      have hnext (next : Bool) : ∀ p ∈ pieces next t, p.isOneLine = true := by
        rw [← modifyHead_nil_append (pieces next t)]
        exact ih (h.of_append hbegun) (by simp) (by simp)
      cases blank with
      | false =>
        simp only [and_self, if_true, List.modifyHead_cons, List.append_nil]
        exact List.forall_mem_cons.mpr ⟨isOneLine_of_notMem hbegun, hnext false⟩
      | true =>
        have hmem : begun ∈ lines (begun ++ '\n' :: t) := by
          rw [lines_append_break hbegun]
          exact List.mem_cons_self
        have hbreak : isAsciiBlank '\n' = true := by decide
        rw [if_neg (by simp), hbreak, List.modifyHead_modifyHead]
        obtain ⟨p, ps, hp⟩ := List.exists_cons_of_ne_nil (pieces_ne_nil true t)
        have hall := hnext true
        rw [hp] at hall ⊢
        obtain ⟨hfirst, hothers⟩ := List.forall_mem_cons.mp hall
        refine List.forall_mem_cons.mpr ⟨?_, hothers⟩
        rw [Function.comp_apply, isOneLine, lines_append_break hbegun,
          List.filter_cons_of_neg (by simp [h.isAllBlank hmem hblank])]
        exact hfirst
    · rw [if_neg (by simp [hc]), List.modifyHead_modifyHead]
      have hline : '\n' ∉ begun ++ [c] := by simp [hbegun, Ne.symm hc]
      have hmore := @ih (begun ++ [c]) (isAsciiBlank c) (by simpa using h) hline (by simp)
      simpa [Function.comp_def] using hmore

theorem isOneLine_of_mem_pieces {p t : Text} (h : EndsSolid t) (hp : p ∈ pieces false t) :
    p.isOneLine = true := by
  have hall := @isOneLine_of_begun [] t false h (by simp) (by simp)
  rw [modifyHead_nil_append] at hall
  exact hall p hp

end Pieces
end Text
end SqlStatements
