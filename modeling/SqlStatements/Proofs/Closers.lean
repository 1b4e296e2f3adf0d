import Mathlib.Data.List.Infix
import Mathlib.Order.Bounds.Basic
import Mathlib.Order.Nat
import SqlStatements.Proofs.ByteLexemes
import SqlStatements.Proofs.Openers

namespace SqlStatements.Lexeme

section Search
variable {α : Type}

/-- `wanted` stands in the text behind its first `k` symbols. -/
def StandsAt (wanted text : List α) (k : Nat) : Prop :=
  ∃ before after, text = before ++ wanted ++ after ∧ before.length = k

/-- The closer ends the first `n` symbols and does not reach into the opener. -/
def ClosesAt (opener closer rest : List α) (n : Nat) : Prop :=
  opener.length + closer.length ≤ n ∧ n ≤ rest.length ∧
    closer <:+ (rest.take n).drop opener.length

/-- What is found is the shortest match, and nothing is found only where there is none. -/
structure FindsShortest (why : Unclosed) (opener closer rest : List α)
    (found : Except Unclosed (Option Nat)) : Prop where
  closed_iff : ∀ n, found = .ok (some n) ↔ IsLeast {m | ClosesAt opener closer rest m} n
  unclosed_iff : ∀ e, found = .error e ↔ e = why ∧ ∀ n, ¬ ClosesAt opener closer rest n

variable {wanted text opener closer body : List α} {k n : Nat}

theorem standsAt_iff : StandsAt wanted text k ↔ k ≤ text.length ∧ wanted <+: text.drop k := by
  constructor
  · rintro ⟨before, after, rfl, rfl⟩
    refine ⟨by simp, ?_⟩
    rw [List.append_assoc, List.drop_left]
    exact List.prefix_append wanted after
  · rintro ⟨hk, after, hafter⟩
    refine ⟨text.take k, after, ?_, List.length_take_of_le hk⟩
    rw [List.append_assoc, hafter, List.take_append_drop]

/-- A match is the opener, what stands before a closer behind it, and that closer. -/
theorem closesAt_append_iff :
    ClosesAt opener closer (opener ++ body) n ↔
      ∃ k, StandsAt closer body k ∧ opener.length + k + closer.length = n := by
  constructor
  · rintro ⟨hl, hn, hs⟩
    obtain ⟨m, rfl⟩ := Nat.exists_eq_add_of_le (Nat.le_of_add_right_le hl)
    rw [List.take_length_add_append, List.drop_left] at hs
    obtain ⟨before, hbefore⟩ := hs
    refine ⟨before.length, ⟨before, body.drop m, ?_, rfl⟩, ?_⟩
    · rw [hbefore, List.take_append_drop]
    · have hlength := congrArg List.length hbefore
      simp only [List.length_append, List.length_take] at hlength hn
      omega
  · rintro ⟨_, ⟨before, after, rfl, rfl⟩, rfl⟩
    refine ⟨by omega, by simp; omega, before, ?_⟩
    rw [Nat.add_assoc, List.take_length_add_append, List.drop_left, ← List.length_append,
      List.take_left]

/-- The first closer ends the shortest match. -/
theorem isLeast_closesAt_iff :
    IsLeast {m | ClosesAt opener closer (opener ++ body) m} (opener.length + k + closer.length) ↔
      IsLeast {j | StandsAt closer body j} k := by
  constructor
  · rintro ⟨hk, hleast⟩
    obtain ⟨j, hj, he⟩ := closesAt_append_iff.mp hk
    obtain rfl : j = k := by omega
    refine ⟨hj, ?_⟩
    intro i hi
    have := hleast (closesAt_append_iff.mpr ⟨i, hi, rfl⟩)
    omega
  · rintro ⟨hk, hleast⟩
    refine ⟨closesAt_append_iff.mpr ⟨k, hk, rfl⟩, ?_⟩
    intro m hm
    obtain ⟨j, hj, rfl⟩ := closesAt_append_iff.mp hm
    have := hleast hj
    omega

/-- A search for the first closer behind the opener finds the shortest match. -/
theorem findsShortest_of_search {why : Unclosed} {result : Except Unclosed (Option Nat)}
    {found : Option Nat} (hfound : ∀ k, found = some k ↔ IsLeast {j | StandsAt closer body j} k)
    (hsome : ∀ k, found = some k → result = .ok (some (opener.length + k + closer.length)))
    (hnone : found = none → result = .error why) :
    FindsShortest why opener closer (opener ++ body) result := by
  cases found with
  | some k =>
    have hleast : IsLeast {m | ClosesAt opener closer (opener ++ body) m} _ :=
      isLeast_closesAt_iff.mpr ((hfound k).mp rfl)
    rw [hsome k rfl]
    constructor
    · intro n
      rw [Except.ok.injEq, Option.some.injEq]
      exact ⟨fun he => he ▸ hleast, fun hn => IsLeast.unique hleast hn⟩
    · intro e
      simp only [reduceCtorEq, false_iff, not_and]
      intro _ hopen
      exact hopen _ hleast.1
  | none =>
    have hopen (n : Nat) : ¬ ClosesAt opener closer (opener ++ body) n := by
      intro hn
      obtain ⟨k, hk, -⟩ := closesAt_append_iff.mp hn
      classical
      cases (hfound _).mpr (Nat.isLeast_find (p := StandsAt closer body) ⟨k, hk⟩)
    rw [hnone rfl]
    constructor
    · intro n
      simp only [reduceCtorEq, false_iff]
      intro hn
      exact hopen n hn.1
    · intro e
      rw [Except.error.injEq, eq_comm]
      exact ⟨fun he => ⟨he, hopen⟩, fun h => h.1⟩

variable [BEq α] [LawfulBEq α]

theorem findIdx?_tails_eq_some_iff :
    text.tails.findIdx? wanted.isPrefixOf = some k ↔ IsLeast {j | StandsAt wanted text j} k := by
  simp only [List.findIdx?_eq_some_iff_getElem, List.getElem_tails, List.length_tails,
    List.isPrefixOf_iff_prefix, Nat.lt_succ_iff]
  constructor
  · rintro ⟨hk, hp, hbefore⟩
    refine ⟨standsAt_iff.mpr ⟨hk, hp⟩, ?_⟩
    intro j hj
    by_contra hlt
    exact hbefore j (Nat.lt_of_not_le hlt) (standsAt_iff.mp hj).2
  · rintro ⟨hk, hleast⟩
    obtain ⟨hlength, hp⟩ := standsAt_iff.mp hk
    refine ⟨hlength, hp, ?_⟩
    intro j hlt hj
    exact Nat.not_le_of_lt hlt (hleast (standsAt_iff.mpr ⟨by omega, hj⟩))

end Search

theorem indexOf?_eq_some_iff {wanted text : Text} {k : Nat} :
    Text.indexOf? wanted text = some k ↔ IsLeast {j | StandsAt wanted text j} k := by
  have htails : Text.indexOf? wanted text = text.tails.findIdx? wanted.isPrefixOf := by
    induction text with
    | nil => cases wanted <;> rfl
    | cons c text ih => simp [Text.indexOf?, List.findIdx?_cons, ih]
  rw [htails, findIdx?_tails_eq_some_iff]

theorem indexOf?_bytes_eq_some_iff {wanted text : Bytes} {k : Nat} :
    Bytes.indexOf? wanted text = some k ↔ IsLeast {j | StandsAt wanted text j} k := by
  have htails : Bytes.indexOf? wanted text = text.tails.findIdx? wanted.isPrefixOf := by
    induction text with
    | nil => cases wanted <;> rfl
    | cons c text ih => simp [Bytes.indexOf?, List.findIdx?_cons, ih]
  rw [htails, findIdx?_tails_eq_some_iff]

def searched (why : Unclosed) (opener closer body : Text) : Except Unclosed (Option Nat) :=
  match Text.indexOf? closer body with
  | some k => .ok (some (opener.length + k + closer.length))
  | none => .error why

def inBytes (rest : Text) (found : Except Unclosed (Option Nat)) : Except Unclosed (Option Nat) :=
  found.map (Option.map rest.byteOffset)

section Matchers
variable {opener closer rest tag : Text}

theorem blockComment?_append (hne : opener ≠ []) (body : Text) :
    blockComment? opener closer (opener ++ body) = searched .blockComment opener closer body := by
  have hopener : literal? opener (opener ++ body) = some opener.length :=
    literal?_append_iff.mpr ⟨hne, rfl⟩
  rw [blockComment?, hopener]
  dsimp only
  rw [List.drop_left]
  rfl

theorem dollarQuote?_append (htag : IsTag tag) (body : Text) :
    dollarQuote? (tag ++ body) = searched (.dollarQuote tag) tag tag body := by
  have hfront := dollarTag?_eq_some_iff.mpr ⟨htag, List.prefix_append tag body⟩
  rw [dollarQuote?, hfront]
  dsimp only
  rw [List.drop_left]
  rfl

theorem findsShortest_searched (why : Unclosed) (opener closer body : Text) :
    FindsShortest why opener closer (opener ++ body) (searched why opener closer body) := by
  apply findsShortest_of_search fun k => indexOf?_eq_some_iff
  · intro k hk
    simp only [searched, hk]
  · intro hnone
    simp only [searched, hnone]

theorem findsShortest_searched_utf8 (why : Unclosed) (opener closer body : Text) :
    FindsShortest why opener.utf8 closer.utf8 (opener ++ body).utf8
      (inBytes (opener ++ body) (searched why opener closer body)) := by
  rw [Text.utf8_append]
  apply findsShortest_of_search fun k => indexOf?_bytes_eq_some_iff
  · intro k hk
    rw [Bytes.indexOf?_utf8] at hk
    obtain ⟨n, hn, rfl⟩ := Option.map_eq_some_iff.mp hk
    have hbehind : Text.indexOf? closer ((opener ++ body).drop opener.length) = some n := by
      rwa [List.drop_left]
    have hoffset := Bytes.byteOffset_of_indexOf? hbehind
    rw [Text.byteOffset_front (List.prefix_append opener body), List.drop_left] at hoffset
    simp [searched, hn, inBytes, Except.map, hoffset, Text.length_utf8]
  · intro hnone
    rw [Bytes.indexOf?_utf8, Option.map_eq_none_iff] at hnone
    simp [searched, hnone, inBytes, Except.map]

/-- An empty closer ends the comment at once. -/
theorem blockComment?_of_empty_closer (hne : opener ≠ []) (hp : opener <+: rest) :
    blockComment? opener [] rest = .ok (some opener.length) := by
  obtain ⟨body, rfl⟩ := hp
  have hfound : Text.indexOf? [] body = some 0 := by cases body <;> rfl
  rw [blockComment?_append hne]
  simp [searched, hfound]

/-- No text begins with two different tags. -/
theorem IsTag.unique {other : Text} (htag : IsTag tag) (hp : tag <+: rest) (hother : IsTag other)
    (hq : other <+: rest) : other = tag := by
  have hfound := dollarTag?_eq_some_iff.mpr ⟨htag, hp⟩
  rw [dollarTag?_eq_some_iff.mpr ⟨hother, hq⟩] at hfound
  exact Option.some.inj hfound

theorem dollarTag?_eq_none_iff : dollarTag? rest = none ↔ ∀ tag, IsTag tag → ¬ tag <+: rest := by
  rw [Option.eq_none_iff_forall_ne_some]
  apply forall_congr'
  intro tag
  rw [Ne, dollarTag?_eq_some_iff, not_and]

end Matchers

/-- A block comment and a dollar quote match where their opener stands in front, and nowhere else.
The match is the shortest one that ends with the closer behind the opener, and a failure names the
opener exactly where there is none. An empty closer is found at once, and no text begins with two
tags. All of this holds of the characters of the texts and of their bytes. -/
theorem delimited_matches_are_shortest (opener closer rest : Text) :
    (blockComment? opener closer rest = .ok none ↔ opener = [] ∨ ¬ opener <+: rest) ∧
    (opener ≠ [] → opener <+: rest →
      FindsShortest .blockComment opener closer rest (blockComment? opener closer rest) ∧
      FindsShortest .blockComment opener.utf8 closer.utf8 rest.utf8
        (inBytes rest (blockComment? opener closer rest)) ∧
      (closer = [] → blockComment? opener closer rest = .ok (some opener.length))) ∧
    (dollarQuote? rest = .ok none ↔ ∀ tag, IsTag tag → ¬ tag <+: rest) ∧
    ∀ tag, IsTag tag → tag <+: rest →
      (∀ other, IsTag other → other <+: rest → other = tag) ∧
      FindsShortest (.dollarQuote tag) tag tag rest (dollarQuote? rest) ∧
      FindsShortest (.dollarQuote tag) tag.utf8 tag.utf8 rest.utf8
        (inBytes rest (dollarQuote? rest)) := by
  refine ⟨?_, ?_, ?_, ?_⟩
  · rw [blockComment?_eq_none_iff]
    by_cases hne : opener = []
    · simp [hne, literal?]
    · simp [hne, literal?_eq_none_iff hne]
  · intro hne hp
    refine ⟨?_, ?_, fun hc => hc ▸ blockComment?_of_empty_closer hne hp⟩
    all_goals
      obtain ⟨body, rfl⟩ := hp
      rw [blockComment?_append hne]
    · exact findsShortest_searched .blockComment opener closer body
    · exact findsShortest_searched_utf8 .blockComment opener closer body
  · exact dollarQuote?_eq_none_iff.trans dollarTag?_eq_none_iff
  · intro tag htag hp
    refine ⟨fun other hother hq => htag.unique hp hother hq, ?_, ?_⟩
    all_goals
      obtain ⟨body, rfl⟩ := hp
      rw [dollarQuote?_append htag]
    · exact findsShortest_searched (.dollarQuote tag) tag tag body
    · exact findsShortest_searched_utf8 (.dollarQuote tag) tag tag body

/-- The slash of the opener closes nothing, and neither does the second sign of an empty tag. -/
theorem delimited_matches_are_shortest_behind_overlaps :
    let opener : Text := ['/', '*']
    let closer : Text := ['*', '/']
    let comment : Text := ['/', '*', '/', 'é', '*', '/', '*', '/']
    let tag : Text := ['$', '$']
    let literal : Text := ['$', '$', '$', 'é', '$', '$', '$']
    opener ≠ [] ∧ opener <+: comment ∧ IsLeast {m | ClosesAt opener closer comment m} 6 ∧
      IsLeast {m | ClosesAt opener.utf8 closer.utf8 comment.utf8 m} 7 ∧
      IsTag tag ∧ tag <+: literal ∧ IsLeast {m | ClosesAt tag tag literal m} 6 := by
  intro opener closer comment tag literal
  have hne : opener ≠ [] := by decide
  have hp : opener <+: comment := by decide
  have htag : IsTag tag := ⟨[], by simp, rfl⟩
  have ht : tag <+: literal := by decide
  obtain ⟨hchars, hbytes, -⟩ := (delimited_matches_are_shortest opener closer comment).2.1 hne hp
  obtain ⟨-, hquote, -⟩ := (delimited_matches_are_shortest [] [] literal).2.2.2 tag htag ht
  exact ⟨hne, hp, (hchars.closed_iff 6).mp (by decide), (hbytes.closed_iff 7).mp (by decide),
    htag, ht, (hquote.closed_iff 6).mp (by decide)⟩

end SqlStatements.Lexeme
