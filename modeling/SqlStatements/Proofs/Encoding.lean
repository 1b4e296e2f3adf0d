import SqlStatements.Proofs.Positions

namespace SqlStatements

abbrev Bytes := List UInt8

namespace Bytes

/-- The byte carries a character on that began before it. -/
def isContinuation (b : UInt8) : Bool := 0x80 ≤ b.toNat && b.toNat < 0xC0

/-- The number of bytes of the character that begins with a byte. -/
def width (b : UInt8) : Nat :=
  if b.toNat < 0x80 then 1 else if b.toNat < 0xE0 then 2 else if b.toNat < 0xF0 then 3 else 4

/-- The byte is a character of ASCII by itself, and one of a class. -/
def ascii (p : Char → Bool) (b : UInt8) : Bool := b.toNat < 0x80 && p (Char.ofNat b.toNat)

def OfAscii (p : Char → Bool) : Prop := ∀ c, p c = true → c.toNat < 0x80

/-- The bytes can be cut at an offset: at their two ends, and before a byte that carries no
character on. -/
def isBoundary (bytes : Bytes) (n : Nat) : Bool :=
  n == 0 || match bytes[n]? with
    | some b => !isContinuation b
    | none => n == bytes.length

/-- The bytes between two offsets. There are none when a cut would fall inside a character or
behind the end. -/
def slice? (bytes : Bytes) (start stop : Nat) : Option Bytes :=
  if start ≤ stop ∧ isBoundary bytes start = true ∧ isBoundary bytes stop = true then
    some ((bytes.take stop).drop start)
  else none

def sliceTo? (bytes : Bytes) (stop : Nat) : Option Bytes := slice? bytes 0 stop

def sliceFrom? (bytes : Bytes) (start : Nat) : Option Bytes := slice? bytes start bytes.length

theorem isContinuation_iff {b : UInt8} :
    isContinuation b = true ↔ 0x80 ≤ b.toNat ∧ b.toNat < 0xC0 := by
  simp [isContinuation]

theorem ascii_eq_false {p : Char → Bool} {b : UInt8} (h : 0x80 ≤ b.toNat) : ascii p b = false := by
  have hb : ¬ b.toNat < 0x80 := by omega
  simp [ascii, hb]

theorem toNat_ofNat_of_ascii {c : Char} (h : c.toNat < 0x80) :
    (UInt8.ofNat c.toNat).toNat = c.toNat := by
  rw [UInt8.toNat_ofNat']
  omega

theorem encoding_of_ascii {c : Char} (h : c.toNat < 0x80) :
    String.utf8EncodeChar c = [UInt8.ofNat c.toNat] := by
  have hv : c.val.toNat = c.toNat := rfl
  rw [String.utf8EncodeChar, if_pos (by omega), hv]

theorem utf8Size_of_ascii {c : Char} (h : c.toNat < 0x80) : c.utf8Size = 1 := by
  rw [← String.length_utf8EncodeChar, encoding_of_ascii h]
  rfl

theorem isContinuation_ofNat (v : Nat) : isContinuation (UInt8.ofNat (v % 64 + 128)) = true := by
  rw [isContinuation_iff, UInt8.toNat_ofNat']
  omega

/-- Any other character is a first byte and others that carry it on. -/
theorem exists_encoding {c : Char} (h : ¬ c.toNat < 0x80) :
    ∃ b bs, String.utf8EncodeChar c = b :: bs ∧ 0xC0 ≤ b.toNat ∧ width b = bs.length + 1 ∧
      ∀ x ∈ bs, isContinuation x = true := by
  have hv : c.val.toNat = c.toNat := rfl
  simp only [String.utf8EncodeChar, hv]
  rw [if_neg (by omega)]
  split
  · refine ⟨_, _, rfl, ?_, ?_, ?_⟩
    · rw [UInt8.toNat_ofNat']
      omega
    · rw [width, UInt8.toNat_ofNat', if_neg (by omega), if_pos (by omega)]
      rfl
    · simp only [List.forall_mem_cons, isContinuation_ofNat, List.not_mem_nil, false_implies,
        implies_true, and_self]
  split
  · refine ⟨_, _, rfl, ?_, ?_, ?_⟩
    · rw [UInt8.toNat_ofNat']
      omega
    · rw [width, UInt8.toNat_ofNat', if_neg (by omega), if_neg (by omega), if_pos (by omega)]
      rfl
    · simp only [List.forall_mem_cons, isContinuation_ofNat, List.not_mem_nil, false_implies,
        implies_true, and_self]
  · refine ⟨_, _, rfl, ?_, ?_, ?_⟩
    · rw [UInt8.toNat_ofNat']
      omega
    · rw [width, UInt8.toNat_ofNat', if_neg (by omega), if_neg (by omega), if_neg (by omega)]
      rfl
    · simp only [List.forall_mem_cons, isContinuation_ofNat, List.not_mem_nil, false_implies,
        implies_true, and_self]

/-- The first byte of a character tells its width, and only the others carry it on. -/
theorem encoding_cons (c : Char) :
    ∃ b bs, String.utf8EncodeChar c = b :: bs ∧ isContinuation b = false ∧
      width b = c.utf8Size ∧ ∀ x ∈ bs, isContinuation x = true := by
  by_cases hc : c.toNat < 0x80
  · have hb := toNat_ofNat_of_ascii hc
    refine ⟨_, [], encoding_of_ascii hc, ?_, ?_, by simp⟩
    · rw [isContinuation, hb, decide_eq_false (by omega)]
      rfl
    · rw [width, hb, if_pos hc, utf8Size_of_ascii hc]
  · obtain ⟨b, bs, he, hb, hw, hbs⟩ := exists_encoding hc
    have hsize := String.length_utf8EncodeChar c
    rw [he, List.length_cons] at hsize
    refine ⟨b, bs, he, ?_, hw.trans hsize, hbs⟩
    rw [isContinuation, Bool.and_eq_false_iff]
    exact .inr (decide_eq_false (by omega))

/-- Of two texts in UTF-8 that begin alike the first characters are the same. -/
theorem encoding_inj {c d : Char} {x y : Bytes}
    (h : String.utf8EncodeChar c ++ x = String.utf8EncodeChar d ++ y) : c = d := by
  have hdecode (c : Char) (x : Bytes) :
      (String.utf8EncodeChar c ++ x).toByteArray.utf8DecodeChar? 0 = some c := by
    rw [List.toByteArray_append]
    exact ByteArray.utf8DecodeChar?_utf8EncodeChar_append
  have hc := hdecode c x
  rw [h, hdecode d y] at hc
  exact (Option.some.inj hc).symm

section Class
variable {p : Char → Bool}

theorem ascii_ofNat {c : Char} (h : c.toNat < 0x80) : ascii p (UInt8.ofNat c.toNat) = p c := by
  rw [ascii, toNat_ofNat_of_ascii h, decide_eq_true h, Char.ofNat_toNat, Bool.true_and]

/-- No byte of a character outside of a class is a character of the class. -/
theorem ascii_encoding_of_not {c : Char} (h : p c = false) :
    ∀ b ∈ String.utf8EncodeChar c, ascii p b = false := by
  intro b hb
  by_cases hc : c.toNat < 0x80
  · rw [encoding_of_ascii hc, List.mem_singleton] at hb
    rw [hb, ascii_ofNat hc, h]
  · obtain ⟨d, bs, he, hd, -, hbs⟩ := exists_encoding hc
    rw [he] at hb
    rcases List.mem_cons.mp hb with rfl | hm
    · exact ascii_eq_false (by omega)
    · exact ascii_eq_false (isContinuation_iff.mp (hbs b hm)).1

end Class
end Bytes

namespace Text
open Bytes

@[simp] theorem utf8_nil : utf8 [] = [] := rfl

theorem utf8_cons (c : Char) (t : Text) : utf8 (c :: t) = String.utf8EncodeChar c ++ t.utf8 := rfl

theorem utf8_cons_of_ascii {c : Char} (h : c.toNat < 0x80) (t : Text) :
    utf8 (c :: t) = UInt8.ofNat c.toNat :: t.utf8 := by
  rw [utf8_cons, encoding_of_ascii h]
  rfl

@[simp] theorem utf8_append (s t : Text) : utf8 (s ++ t) = s.utf8 ++ t.utf8 := List.flatMap_append

theorem utf8_eq_nil_iff {t : Text} : t.utf8 = [] ↔ t = [] := by
  cases t with
  | nil => simp
  | cons c t => simp [utf8_cons, String.utf8EncodeChar_ne_nil]

/-- Text begins another text exactly if its bytes do. -/
theorem utf8_prefix_iff {s t : Text} : s.utf8 <+: t.utf8 ↔ s <+: t := by
  constructor
  · intro h
    induction s generalizing t with
    | nil => exact List.nil_prefix
    | cons c s ih =>
      cases t with
      | nil => exact absurd (utf8_eq_nil_iff.mp (List.prefix_nil.mp h)) (List.cons_ne_nil c s)
      | cons d t =>
        obtain ⟨w, hw⟩ := h
        rw [utf8_cons, utf8_cons, List.append_assoc] at hw
        obtain rfl := encoding_inj hw
        exact List.cons_prefix_cons.mpr ⟨rfl, ih ⟨w, List.append_cancel_left hw⟩⟩
  · rintro ⟨w, rfl⟩
    rw [utf8_append]
    exact List.prefix_append _ _

/-- The first byte of a text carries no character on. -/
theorem isContinuation_head {t : Text} : ∀ b ∈ t.utf8.head?, isContinuation b = false := by
  cases t with
  | nil => simp
  | cons c t =>
    obtain ⟨b, bs, he, hb, -, -⟩ := encoding_cons c
    simpa [utf8_cons, he] using hb

theorem takeBytes?_of_byteSize_le {t : Text} {n : Nat} (h : t.byteSize ≤ n) :
    t.takeBytes? n = some t := by
  induction t generalizing n with
  | nil => rfl
  | cons c t ih =>
    have hpos := c.utf8Size_pos
    rw [byteSize_cons] at h
    rw [takeBytes?, if_neg (by omega), if_pos (by omega), ih (by omega)]
    rfl

def byteOffset (t : Text) (n : Nat) : Nat := byteSize (t.take n)

section Offset
variable (t : Text) (m n : Nat)

@[simp] theorem byteOffset_zero : t.byteOffset 0 = 0 := by simp [byteOffset]

theorem byteOffset_cons (c : Char) :
    byteOffset (c :: t) (n + 1) = c.utf8Size + t.byteOffset n := rfl

theorem byteOffset_add : t.byteOffset (m + n) = t.byteOffset m + byteOffset (t.drop m) n := by
  rw [byteOffset, List.take_add, byteSize_append]
  rfl

theorem byteOffset_front {s t : Text} (h : s <+: t) : t.byteOffset s.length = byteSize s := by
  rw [byteOffset, ← List.prefix_iff_eq_take.mp h]

theorem byteOffset_of_length_le {t : Text} {n : Nat} (h : t.length ≤ n) :
    t.byteOffset n = t.byteSize := by
  rw [byteOffset, List.take_of_length_le h]

end Offset
end Text

namespace Bytes

section Boundary
variable (s t u : Text)

theorem isBoundary_add (c : Char) (n : Nat) :
    isBoundary (Text.utf8 (c :: t)) (c.utf8Size + n) = isBoundary t.utf8 n := by
  have hpos : (c.utf8Size + n == 0) = false := by
    have := c.utf8Size_pos
    exact beq_eq_false_iff_ne.mpr (by omega)
  have hget : (Text.utf8 (c :: t))[c.utf8Size + n]? = t.utf8[n]? := by
    rw [Text.utf8_cons, ← String.length_utf8EncodeChar c, List.getElem?_append_right (by omega),
      Nat.add_sub_cancel_left]
  have hlength : (Text.utf8 (c :: t)).length = c.utf8Size + t.utf8.length := by
    rw [Text.utf8_cons, List.length_append, String.length_utf8EncodeChar]
  rw [isBoundary, isBoundary, hget, hlength, hpos, Bool.false_or]
  cases hb : t.utf8[n]? with
  | none =>
    have hn : n = 0 → t.utf8.length = 0 := by
      have := List.getElem?_eq_none_iff.mp hb
      omega
    rw [Bool.eq_iff_iff]
    simp only [Bool.or_eq_true, beq_iff_eq]
    omega
  | some b =>
    by_cases hn : n = 0
    · subst hn
      have hf := Text.isContinuation_head (t := t) b (by simpa [List.head?_eq_getElem?] using hb)
      simp [hf]
    · simp [hn]

/-- The bytes of a text can be cut exactly where its characters can. -/
theorem isBoundary_utf8_iff {t : Text} {n : Nat} :
    isBoundary t.utf8 n = true ↔ ∃ s, s <+: t ∧ Text.byteSize s = n := by
  induction t generalizing n with
  | nil =>
    have hnil : isBoundary [] n = true ↔ n = 0 := by simp [isBoundary]
    rw [Text.utf8_nil, hnil]
    constructor
    · rintro rfl
      exact ⟨[], List.nil_prefix, rfl⟩
    · rintro ⟨s, hs, rfl⟩
      rw [List.prefix_nil.mp hs, Text.byteSize_nil]
  | cons c t ih =>
    by_cases hn : n = 0
    · subst hn
      exact iff_of_true rfl ⟨[], List.nil_prefix, rfl⟩
    by_cases hc : n < c.utf8Size
    · -- a cut inside the first character
      obtain ⟨b, bs, he, -, -, hbs⟩ := encoding_cons c
      have hsize := String.length_utf8EncodeChar c
      obtain ⟨k, rfl⟩ := Nat.exists_eq_succ_of_ne_zero hn
      rw [he, List.length_cons] at hsize
      have hk : k < bs.length := by omega
      have hget : (Text.utf8 (c :: t))[k + 1]? = some bs[k] := by
        rw [Text.utf8_cons, he, List.cons_append, List.getElem?_cons_succ,
          List.getElem?_append_left hk, List.getElem?_eq_getElem hk]
      refine iff_of_false ?_ ?_
      · simp [isBoundary, hget, hbs bs[k] (List.getElem_mem hk)]
      · rintro ⟨s, hs, hl⟩
        cases s with
        | nil => cases hl
        | cons d s =>
          rw [(List.cons_prefix_cons.mp hs).1, Text.byteSize_cons] at hl
          omega
    · obtain ⟨m, rfl⟩ := Nat.exists_eq_add_of_le (Nat.le_of_not_lt hc)
      rw [isBoundary_add, ih]
      constructor
      · rintro ⟨s, hs, rfl⟩
        exact ⟨c :: s, List.cons_prefix_cons.mpr ⟨rfl, hs⟩, rfl⟩
      · rintro ⟨s, hs, hl⟩
        cases s with
        | nil => exact absurd hl.symm hn
        | cons d s =>
          obtain ⟨rfl, ht⟩ := List.cons_prefix_cons.mp hs
          exact ⟨s, ht, Nat.add_left_cancel hl⟩

theorem isBoundary_front {s t : Text} (h : s <+: t) :
    isBoundary t.utf8 (Text.byteSize s) = true :=
  isBoundary_utf8_iff.mpr ⟨s, h, rfl⟩

theorem isBoundary_byteOffset (n : Nat) : isBoundary t.utf8 (t.byteOffset n) = true :=
  isBoundary_front (List.take_prefix n t)

theorem slice?_utf8 :
    slice? (Text.utf8 (s ++ t ++ u)) s.byteSize (s.byteSize + t.byteSize) = some t.utf8 := by
  have hs : isBoundary (Text.utf8 (s ++ t ++ u)) s.byteSize = true :=
    isBoundary_front (by simp)
  have ht : isBoundary (Text.utf8 (s ++ t ++ u)) (s.byteSize + t.byteSize) = true := by
    rw [← Text.byteSize_append]
    exact isBoundary_front (List.prefix_append _ _)
  rw [slice?, if_pos ⟨Nat.le_add_right _ _, hs, ht⟩, ← Text.byteSize_append, ← Text.length_utf8,
    ← Text.length_utf8, Text.utf8_append (s ++ t), List.take_left, Text.utf8_append, List.drop_left]

theorem sliceTo?_utf8 : sliceTo? (s.utf8 ++ t.utf8) s.byteSize = some s.utf8 := by
  have h := slice?_utf8 [] s t
  rwa [List.nil_append, Text.utf8_append, Text.byteSize_nil, Nat.zero_add] at h

theorem sliceFrom?_utf8 : sliceFrom? (s.utf8 ++ t.utf8) s.byteSize = some t.utf8 := by
  have h := slice?_utf8 s t []
  rwa [List.append_nil, ← Text.byteSize_append, ← Text.length_utf8 (s ++ t),
    Text.utf8_append] at h

theorem sliceTo?_byteOffset (n : Nat) :
    sliceTo? t.utf8 (t.byteOffset n) = some (Text.utf8 (t.take n)) := by
  have h := sliceTo?_utf8 (t.take n) (t.drop n)
  rwa [← Text.utf8_append, List.take_append_drop] at h

theorem sliceFrom?_byteOffset (n : Nat) :
    sliceFrom? t.utf8 (t.byteOffset n) = some (Text.utf8 (t.drop n)) := by
  have h := sliceFrom?_utf8 (t.take n) (t.drop n)
  rwa [← Text.utf8_append, List.take_append_drop] at h

theorem getElem?_byteOffset (n : Nat) :
    t.utf8[t.byteOffset n]? = (Text.utf8 (t.drop n)).head? := by
  have hsplit : t.utf8 = Text.utf8 (t.take n) ++ Text.utf8 (t.drop n) := by
    rw [← Text.utf8_append, List.take_append_drop]
  rw [hsplit, Text.byteOffset, ← Text.length_utf8, List.getElem?_append_right (Nat.le_refl _),
    Nat.sub_self, List.head?_eq_getElem?]

/-- The leading part is cut alike in bytes and in characters, and there is none exactly inside a
character. -/
theorem sliceTo?_min (n : Nat) :
    sliceTo? t.utf8 (min n t.utf8.length) = (t.takeBytes? n).map Text.utf8 := by
  rw [Text.length_utf8]
  by_cases hn : t.byteSize ≤ n
  · have h := sliceTo?_utf8 t []
    rw [Text.utf8_nil, List.append_nil] at h
    rw [Nat.min_eq_right hn, Text.takeBytes?_of_byteSize_le hn, h]
    rfl
  · rw [Nat.min_eq_left (by omega)]
    cases hcut : t.takeBytes? n with
    | some s =>
      obtain ⟨⟨w, rfl⟩, rfl⟩ := Text.cut_of_takeBytes? hcut (by omega)
      rw [Text.utf8_append, sliceTo?_utf8]
      rfl
    | none =>
      have hinside : ¬ isBoundary t.utf8 n = true := by
        intro hb
        obtain ⟨s, ⟨w, rfl⟩, rfl⟩ := isBoundary_utf8_iff.mp hb
        rw [Text.takeBytes?_append] at hcut
        cases hcut
      exact if_neg fun h => hinside h.2.2

end Boundary

section Class
variable {p : Char → Bool}

theorem ascii_utf8_of_not {t : Text} (h : ∀ c ∈ t, p c = false) :
    ∀ b ∈ t.utf8, ascii p b = false := by
  intro b hb
  obtain ⟨c, hc, hm⟩ := List.mem_flatMap.mp hb
  exact ascii_encoding_of_not (h c hc) b hm

variable (hp : OfAscii p) (t : Text)
include hp

/-- A character of a class of ASCII is one byte, and that is in the class. -/
theorem utf8_cons_of_pos {c : Char} (h : p c = true) :
    ∃ b, (∀ t : Text, Text.utf8 (c :: t) = b :: t.utf8) ∧ ascii p b = true ∧ c.utf8Size = 1 := by
  have hc := hp c h
  exact ⟨_, Text.utf8_cons_of_ascii hc, by rw [ascii_ofNat hc, h], utf8Size_of_ascii hc⟩

theorem takeWhile_utf8 : t.utf8.takeWhile (ascii p) = Text.utf8 (t.takeWhile p) := by
  induction t with
  | nil => rfl
  | cons c t ih =>
    cases hc : p c with
    | true =>
      obtain ⟨b, he, hb, -⟩ := utf8_cons_of_pos hp hc
      rw [he, List.takeWhile_cons_of_pos hb, ih, List.takeWhile_cons_of_pos hc, he]
    | false =>
      obtain ⟨b, bs, he, -⟩ := encoding_cons c
      have hb : ascii p b = false := ascii_encoding_of_not hc b (by simp [he])
      rw [Text.utf8_cons, he, List.cons_append, List.takeWhile_cons_of_neg (by simp [hb]),
        List.takeWhile_cons_of_neg (by simp [hc])]
      rfl

theorem length_takeWhile_utf8 :
    (t.utf8.takeWhile (ascii p)).length = t.byteOffset (t.takeWhile p).length := by
  rw [takeWhile_utf8 hp, Text.length_utf8, Text.byteOffset_front (List.takeWhile_prefix p)]

theorem findIdx?_utf8 : t.utf8.findIdx? (ascii p) = (t.findIdx? p).map t.byteOffset := by
  induction t with
  | nil => rfl
  | cons c t ih =>
    cases hc : p c with
    | true =>
      obtain ⟨b, he, hb, -⟩ := utf8_cons_of_pos hp hc
      rw [he, List.findIdx?_cons, if_pos hb, List.findIdx?_cons, if_pos hc]
      rfl
    | false =>
      have hnone : (String.utf8EncodeChar c).findIdx? (ascii p) = none :=
        List.findIdx?_eq_none_iff.mpr (ascii_encoding_of_not hc)
      rw [Text.utf8_cons, List.findIdx?_append, hnone, ih, String.length_utf8EncodeChar,
        List.findIdx?_cons, if_neg (by simp [hc])]
      simp only [Option.none_or, Option.map_map, Function.comp_def, Text.byteOffset_cons,
        Nat.add_comm]

theorem countP_utf8 : t.utf8.countP (ascii p) = t.countP p := by
  induction t with
  | nil => rfl
  | cons c t ih =>
    cases hc : p c with
    | true =>
      obtain ⟨b, he, hb, -⟩ := utf8_cons_of_pos hp hc
      rw [he, List.countP_cons_of_pos hb, ih, List.countP_cons_of_pos hc]
    | false =>
      have hzero : (String.utf8EncodeChar c).countP (ascii p) = 0 := by
        rw [List.countP_eq_zero]
        intro b hb
        simp [ascii_encoding_of_not hc b hb]
      rw [Text.utf8_cons, List.countP_append, hzero, ih, List.countP_cons_of_neg (by simp [hc]),
        Nat.zero_add]

end Class

/-- Each character has one byte that carries no character on. -/
theorem countP_first_utf8 (t : Text) : t.utf8.countP (fun b => !isContinuation b) = t.length := by
  induction t with
  | nil => rfl
  | cons c t ih =>
    obtain ⟨b, bs, he, hb, -, hbs⟩ := encoding_cons c
    have hzero : bs.countP (fun b => !isContinuation b) = 0 := by
      rw [List.countP_eq_zero]
      intro x hx
      simp [hbs x hx]
    rw [Text.utf8_cons, he, List.cons_append, List.countP_cons_of_pos (by simp [hb]),
      List.countP_append, hzero, ih, List.length_cons, Nat.zero_add]

end Bytes
end SqlStatements
