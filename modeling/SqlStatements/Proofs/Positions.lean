import SqlStatements.Proofs.Lossless

namespace SqlStatements

/-- A cut up to the end of a text lies where it is asked for. -/
theorem Text.cut_of_takeBytes? {t s : Text} {size : Nat} (h : t.takeBytes? size = some s)
    (hs : size ≤ t.byteSize) : s <+: t ∧ s.byteSize = size := by
  induction t generalizing s size with
  | nil =>
    cases h
    exact ⟨List.nil_prefix, (Nat.le_zero.mp hs).symm⟩
  | cons c t ih =>
    rw [takeBytes?] at h
    split at h
    · rename_i hz
      cases h
      exact ⟨List.nil_prefix, hz.symm⟩
    split at h
    · rename_i hc
      obtain ⟨r, hr, rfl⟩ := Option.map_eq_some_iff.mp h
      rw [byteSize_cons] at hs
      obtain ⟨hs, hsize⟩ := ih hr (by omega)
      refine ⟨List.cons_prefix_cons.mpr ⟨rfl, hs⟩, ?_⟩
      rw [byteSize_cons]
      omega
    · cases h

namespace Position

def next (p : Position) (c : Char) : Position :=
  if c = '\n' then ⟨p.line + 1, 1⟩ else ⟨p.line, p.column + 1⟩

theorem after_concat (t : Text) (c : Char) : after (t ++ [c]) = (after t).next c := by
  unfold after next
  by_cases hc : c = '\n'
  · simp [hc]
  · simp [hc]

/-- The place behind a text is reached from the place before it one character at a time. -/
theorem after_append (s t : Text) : after (s ++ t) = t.foldl next (after s) := by
  induction t generalizing s with
  | nil => rw [List.append_nil, List.foldl_nil]
  | cons c t ih => rw [List.foldl_cons, ← after_concat, ← ih, List.append_assoc]; rfl

def Before (p q : Position) : Prop := p.line < q.line ∨ p.line = q.line ∧ p.column < q.column

theorem Before.trans {p q r : Position} (h : p.Before q) (k : q.Before r) : p.Before r := by
  unfold Before at h k ⊢
  omega

theorem before_next (p : Position) (c : Char) : p.Before (p.next c) := by
  unfold next
  split
  · exact .inl (Nat.lt_succ_self _)
  · exact .inr ⟨rfl, Nat.lt_succ_self _⟩

theorem before_foldl_next (p : Position) {t : Text} (ht : t ≠ []) : p.Before (t.foldl next p) := by
  induction t generalizing p with
  | nil => exact absurd rfl ht
  | cons c t ih =>
    rw [List.foldl_cons]
    by_cases hn : t = []
    · subst hn
      exact p.before_next c
    · exact (p.before_next c).trans (ih (p.next c) hn)

/-- Text that is read moves the place on. -/
theorem before_after {s t : Text} (h : s <+: t) (hne : s ≠ t) : (after s).Before (after t) := by
  obtain ⟨r, rfl⟩ := h
  rw [after_append]
  apply before_foldl_next
  rintro rfl
  exact hne (List.append_nil s).symm

theorem eq_of_after_eq {script s t : Text} (hs : s <+: script) (ht : t <+: script)
    (h : after s = after t) : s = t := by
  have hself (p : Position) : ¬ p.Before p := by
    unfold Before
    omega
  by_cases he : s = t
  · exact he
  rcases List.prefix_or_prefix_of_prefix hs ht with hst | hts
  · exact absurd (h ▸ before_after hst he) (hself _)
  · exact absurd (h ▸ before_after hts (Ne.symm he)) (hself _)

/-- No two offsets between characters have the same place. -/
theorem eq_of_at?_eq {script : Text} {m n : Nat} {p : Position} (hm : m ≤ script.byteSize)
    (hn : n ≤ script.byteSize) (h : at? script m = some p) (k : at? script n = some p) :
    m = n := by
  obtain ⟨s, hs, rfl⟩ := Option.map_eq_some_iff.mp h
  obtain ⟨t, ht, he⟩ := Option.map_eq_some_iff.mp k
  obtain ⟨hsp, rfl⟩ := Text.cut_of_takeBytes? hs hm
  obtain ⟨htp, rfl⟩ := Text.cut_of_takeBytes? ht hn
  rw [eq_of_after_eq hsp htp he.symm]

end Position
end SqlStatements
