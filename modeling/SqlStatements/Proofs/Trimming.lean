import Mathlib.Data.List.DropRight
import Mathlib.Data.List.Induction
import SqlStatements.Text.Blank

namespace SqlStatements.Text

def isAllBlank (t : Text) : Bool := t.all isBlank

theorem isAllBlank_append (s t : Text) : isAllBlank (s ++ t) = (isAllBlank s && isAllBlank t) :=
  List.all_append

/-- Blanks at the two ends of a text are trimmed, up to characters that are none. -/
theorem trim_append_append {l x r : Text} (hl : isAllBlank l = true) (hr : isAllBlank r = true)
    (hfirst : ∃ c ∈ x.head?, isBlank c = false) (hlast : ∃ c ∈ x.getLast?, isBlank c = false) :
    trim (l ++ x ++ r) = x := by
  obtain ⟨c, hc, hcb⟩ := hfirst
  obtain ⟨d, hd, hdb⟩ := hlast
  obtain ⟨cs, rfl⟩ := List.head?_eq_some_iff.mp hc
  have hleft : (l ++ (c :: cs) ++ r).dropWhile isBlank = (c :: cs) ++ r := by
    rw [List.append_assoc, List.dropWhile_append_of_pos (by simpa [isAllBlank] using hl),
      List.cons_append, List.dropWhile_cons_of_neg (by simp [hcb])]
  rw [trim, hleft]
  obtain ⟨front, hfront⟩ := List.getLast?_eq_some_iff.mp hd
  rw [hfront, List.reverse_append,
    List.dropWhile_append_of_pos (by simpa [isAllBlank] using hr), List.reverse_append,
    List.reverse_singleton, List.singleton_append, List.dropWhile_cons_of_neg (by simp [hdb])]
  simp

theorem head_append {x : Text} (h : ∃ c ∈ x.head?, isBlank c = false) (y : Text) :
    ∃ c ∈ (x ++ y).head?, isBlank c = false := by
  obtain ⟨c, hc, hb⟩ := h
  refine ⟨c, ?_, hb⟩
  rw [List.head?_append, Option.mem_def.mp hc]
  rfl

theorem getLast_append {y : Text} (h : ∃ c ∈ y.getLast?, isBlank c = false) (x : Text) :
    ∃ c ∈ (x ++ y).getLast?, isBlank c = false := by
  obtain ⟨c, hc, hb⟩ := h
  refine ⟨c, ?_, hb⟩
  rw [List.getLast?_append, Option.mem_def.mp hc]
  rfl

theorem rdropWhile_append {x : Text} (h : ∀ c ∈ x.getLast?, isBlank c = false) (y : Text) :
    (x ++ y).rdropWhile isBlank = x ++ y.rdropWhile isBlank := by
  induction y using List.reverseRec with
  | nil =>
    rw [List.append_nil, List.rdropWhile_nil, List.append_nil, List.rdropWhile_eq_self_iff]
    intro hne
    simp [h _ (List.getLast?_eq_some_getLast hne)]
  | append_singleton y c ih =>
    rw [← List.append_assoc, List.rdropWhile_concat, List.rdropWhile_concat, ih]
    split
    · rfl
    · rw [List.append_assoc]

theorem trim_eq_nil {t : Text} (h : isAllBlank t = true) : trim t = [] := by
  have hd : t.dropWhile isBlank = [] :=
    List.dropWhile_eq_nil_iff.mpr (by simpa [isAllBlank] using h)
  rw [trim, hd]
  rfl

theorem trim_append_left {l : Text} (hl : isAllBlank l = true) (t : Text) :
    trim (l ++ t) = trim t := by
  rw [trim, List.dropWhile_append_of_pos (by simpa [isAllBlank] using hl)]
  rfl

theorem trim_append_right {r : Text} (hr : isAllBlank r = true) (t : Text) :
    trim (t ++ r) = trim t := by
  by_cases ht : isAllBlank t = true
  · rw [trim_eq_nil ht, trim_eq_nil (by rw [isAllBlank_append, ht, hr]; rfl)]
  · have hne : (t.dropWhile isBlank).isEmpty = false := by
      rw [List.isEmpty_eq_false_iff, ne_eq, List.dropWhile_eq_nil_iff]
      simpa [isAllBlank] using ht
    rw [trim, List.dropWhile_append, hne, if_neg (by simp), List.reverse_append,
      List.dropWhile_append_of_pos (by simpa [isAllBlank] using hr)]
    rfl

/-- The text is what trimming leaves, between blanks. -/
theorem exists_trim (t : Text) :
    ∃ l r, t = l ++ t.trim ++ r ∧ isAllBlank l = true ∧ isAllBlank r = true := by
  refine ⟨t.takeWhile isBlank, (t.dropWhile isBlank).rtakeWhile isBlank, ?_, ?_, ?_⟩
  · have h : t.trim ++ (t.dropWhile isBlank).rtakeWhile isBlank = t.dropWhile isBlank :=
      List.rdropWhile_append_rtakeWhile
    rw [List.append_assoc, h, List.takeWhile_append_dropWhile]
  · exact List.all_takeWhile
  · exact List.all_eq_true.mpr (fun c hc => List.mem_rtakeWhile_imp hc)

theorem trim_ne_nil {t : Text} {c : Char} (hc : c ∈ t) (hb : isBlank c = false) :
    trim t ≠ [] := by
  intro hn
  obtain ⟨l, r, ht, hl, hr⟩ := exists_trim t
  rw [hn, List.append_nil] at ht
  have hall : isAllBlank t = true := by rw [ht, isAllBlank_append, hl, hr]; rfl
  have := List.all_eq_true.mp hall c hc
  rw [hb] at this
  cases this

theorem length_trim_le (t : Text) : t.trim.length ≤ t.length := by
  obtain ⟨l, r, ht, -, -⟩ := exists_trim t
  have := congrArg List.length ht
  simp only [List.length_append] at this
  omega

end SqlStatements.Text
