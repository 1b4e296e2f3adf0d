import SqlStatements.Proofs.Encoding
import SqlStatements.Proofs.Streams

namespace SqlStatements.Bytes

/-! The matchers once more, on the bytes of a text and with the cuts they make. Where a cut falls
inside a character there is no result at all. On texts in UTF-8 every cut falls between two
characters, and the results are those on the characters, counted in bytes. -/

def indexOf? (wanted : Bytes) : Bytes → Option Nat
  | [] => if wanted.isEmpty then some 0 else none
  | b :: bs =>
    if wanted.isPrefixOf (b :: bs) then some 0 else (indexOf? wanted bs).map (· + 1)

def asciiText (bytes : Bytes) : Text := bytes.map fun b => Char.ofNat b.toNat

def literal? (literal rest : Bytes) : Option Nat :=
  if literal.isEmpty then none
  else if literal.isPrefixOf rest then some literal.length
  else none

def lineComment? (opener rest : Bytes) : Option (Option Nat) :=
  match literal? opener rest with
  | none => some none
  | some start => do
    let body ← sliceFrom? rest start
    match body.findIdx? (ascii isLineBreak) with
    | none => return some rest.length
    | some line =>
      let breaks ← sliceFrom? body line
      return some (start + line + (breaks.takeWhile (ascii isLineBreak)).length)

def blockComment? (opener closer rest : Bytes) :
    Option (Except Lexeme.Unclosed (Option Nat)) :=
  match literal? opener rest with
  | none => some (.ok none)
  | some start => do
    let body ← sliceFrom? rest start
    match indexOf? closer body with
    | some n => return .ok (some (start + n + closer.length))
    | none => return .error .blockComment

def quotes : Bytes := [0x27, 0x22, 0x60]

def quotedString? (rest : Bytes) : Option Nat :=
  quotes.findSome? fun quote => Lexeme.quoted? 0x5C quote rest

def isTagPart (c : Char) : Bool := c.isAlphanum || c == '_'

def dollarTag? (rest : Bytes) : Option Nat :=
  if rest.head? = some 0x24 then
    let word := (rest.tail.takeWhile (ascii isTagPart)).length
    if rest[1 + word]? = some 0x24 then some (word + 2) else none
  else none

def dollarQuote? (rest : Bytes) : Option (Except Lexeme.Unclosed (Option Nat)) :=
  match dollarTag? rest with
  | none => some (.ok none)
  | some size => do
    let tag ← sliceTo? rest size
    let body ← sliceFrom? rest size
    match indexOf? tag body with
    | some n => return .ok (some (size + n + size))
    | none => return .error (.dollarQuote (asciiText tag))

def identifier? : Bytes → Option Nat
  | [] => none
  | b :: bs =>
    if ascii Char.isAlpha b then some (1 + (bs.takeWhile (ascii Lexeme.isWordPart)).length)
    else none

def blanks? (rest : Bytes) : Option Nat :=
  let n := (rest.takeWhile (ascii isAsciiBlank)).length
  if 0 < n then some n else none

def character? (rest : Bytes) : Option Nat := rest.head?.map width

theorem ofAscii_isWordPart : OfAscii Lexeme.isWordPart := fun _ h => (toNat_of_isWordPart h).2

theorem ofAscii_isAlpha : OfAscii Char.isAlpha := fun c h =>
  ofAscii_isWordPart c (isWordPart_of_isAlpha h)

theorem ofAscii_isTagPart : OfAscii isTagPart := fun c h =>
  ofAscii_isWordPart c (Bool.or_eq_true_iff.mpr (.inl h))

theorem ofAscii_isAsciiBlank : OfAscii isAsciiBlank := by
  intro c h
  simp only [isAsciiBlank, Bool.or_eq_true, beq_iff_eq] at h
  rcases h with ((((rfl | rfl) | rfl) | rfl) | rfl) | rfl <;> decide

theorem ofAscii_isLineBreak : OfAscii isLineBreak := fun c h =>
  ofAscii_isAsciiBlank c (isAsciiBlank_of_isLineBreak h)

section
variable (t : Text)

theorem literal?_utf8 (literal : Text) :
    literal? literal.utf8 t.utf8 = (Lexeme.literal? literal t).map t.byteOffset := by
  unfold literal? Lexeme.literal?
  by_cases hne : literal = []
  · subst hne
    rfl
  have hbytes : literal.utf8 ≠ [] := mt Text.utf8_eq_nil_iff.mp hne
  by_cases hp : literal <+: t
  · have hb := Text.utf8_prefix_iff.mpr hp
    simp [hne, hbytes, hp, hb, Text.length_utf8, Text.byteOffset_front hp]
  · have hb := mt Text.utf8_prefix_iff.mp hp
    simp [hne, hbytes, hp, hb]

/-- Nothing is found inside a character. -/
theorem indexOf?_continuation {wanted : Text} (hne : wanted ≠ []) {bs : Bytes}
    (hbs : ∀ b ∈ bs, isContinuation b = true) (rest : Bytes) :
    indexOf? wanted.utf8 (bs ++ rest) = (indexOf? wanted.utf8 rest).map (· + bs.length) := by
  induction bs with
  | nil => simp
  | cons b bs ih =>
    have hp : ¬ wanted.utf8 <+: b :: (bs ++ rest) := by
      rintro ⟨w, hw⟩
      obtain ⟨d, ds, he⟩ := List.exists_cons_of_ne_nil (mt Text.utf8_eq_nil_iff.mp hne)
      rw [he, List.cons_append] at hw
      obtain ⟨rfl, -⟩ := List.cons.inj hw
      have hd := Text.isContinuation_head (t := wanted) d (by simp [he])
      rw [hbs d List.mem_cons_self] at hd
      cases hd
    rw [List.cons_append, indexOf?, if_neg (by simpa using hp),
      ih (fun d hd => hbs d (List.mem_cons_of_mem b hd)), Option.map_map]
    rfl

theorem indexOf?_utf8 (wanted : Text) :
    indexOf? wanted.utf8 t.utf8 = (Text.indexOf? wanted t).map t.byteOffset := by
  induction t with
  | nil =>
    by_cases hne : wanted = []
    · subst hne
      rfl
    · simp [indexOf?, Text.indexOf?, hne, Text.utf8_eq_nil_iff]
  | cons c t ih =>
    obtain ⟨b, bs, he, -, -, hbs⟩ := encoding_cons c
    have hsize := String.length_utf8EncodeChar c
    rw [he, List.length_cons] at hsize
    have hcons : Text.utf8 (c :: t) = b :: (bs ++ Text.utf8 t) := by rw [Text.utf8_cons, he]; rfl
    by_cases hp : wanted <+: c :: t
    · have hb := Text.utf8_prefix_iff.mpr hp
      rw [hcons] at hb ⊢
      simp [indexOf?, Text.indexOf?, hp, hb]
    · have hb := mt Text.utf8_prefix_iff.mp hp
      have hne : wanted ≠ [] := by
        rintro rfl
        exact hp List.nil_prefix
      rw [hcons] at hb ⊢
      rw [indexOf?, if_neg (by simpa using hb), indexOf?_continuation hne hbs, ih, Text.indexOf?,
        if_neg (by simpa using hp)]
      simp only [Option.map_map, Function.comp_def, Text.byteOffset_cons]
      congr 1
      funext n
      omega

theorem lineLength_eq : Lexeme.lineLength t =
    match t.findIdx? isLineBreak with
    | none => t.length
    | some line => line + ((t.drop line).takeWhile isLineBreak).length := by
  induction t with
  | nil => rfl
  | cons c t ih =>
    cases hc : isLineBreak c with
    | true => simp [Lexeme.lineLength, List.findIdx?_cons, hc]
    | false =>
      have hstep : Lexeme.lineLength (c :: t) = Lexeme.lineLength t + 1 := by
        simp [Lexeme.lineLength, hc]
        omega
      rw [hstep, ih, List.findIdx?_cons, hc]
      cases t.findIdx? isLineBreak with
      | none => rfl
      | some line =>
        exact Nat.add_right_comm _ _ _

theorem lineComment?_utf8 (opener : Text) :
    lineComment? opener.utf8 t.utf8 = some ((Lexeme.lineComment? opener t).map t.byteOffset) := by
  unfold lineComment? Lexeme.lineComment?
  rw [literal?_utf8]
  cases Lexeme.literal? opener t with
  | none => rfl
  | some start =>
    simp only [Option.map_some, sliceFrom?_byteOffset, Option.bind_eq_bind, Option.bind_some,
      findIdx?_utf8 ofAscii_isLineBreak, lineLength_eq]
    cases (t.drop start).findIdx? isLineBreak with
    | none =>
      have hend : t.byteOffset (start + (t.drop start).length) = t.byteSize :=
        Text.byteOffset_of_length_le (by rw [List.length_drop]; omega)
      simp only [Option.map_none, hend, Text.length_utf8]
      rfl
    | some line =>
      simp only [Option.map_some, sliceFrom?_byteOffset, Option.bind_some,
        length_takeWhile_utf8 ofAscii_isLineBreak, Text.byteOffset_add, Nat.add_assoc]
      rfl

/-- What is found behind the first characters is taken with all of its bytes. -/
theorem byteOffset_of_indexOf? {wanted t : Text} {n body : Nat}
    (h : Text.indexOf? wanted (t.drop n) = some body) :
    t.byteOffset (n + body + wanted.length) =
      t.byteOffset n + Text.byteOffset (t.drop n) body + wanted.byteSize := by
  have hp := Lexeme.prefix_drop_of_indexOf? h
  rw [List.drop_drop] at hp
  rw [Text.byteOffset_add, Text.byteOffset_add, Text.byteOffset_front hp]

theorem blockComment?_utf8 (opener closer : Text) :
    blockComment? opener.utf8 closer.utf8 t.utf8 =
      some ((Lexeme.blockComment? opener closer t).map (Option.map t.byteOffset)) := by
  unfold blockComment? Lexeme.blockComment?
  rw [literal?_utf8]
  cases Lexeme.literal? opener t with
  | none => rfl
  | some start =>
    simp only [Option.map_some, sliceFrom?_byteOffset, Option.bind_eq_bind, Option.bind_some,
      indexOf?_utf8]
    cases hn : Text.indexOf? closer (t.drop start) with
    | none => rfl
    | some n =>
      simp only [Option.map_some, Except.map, byteOffset_of_indexOf? hn, Text.length_utf8]
      rfl

end

section Quotes
variable {escape quote : UInt8}

/-- Bytes that are neither the escape nor the quote are walked over. -/
theorem closingQuote?_append_of_ne {bs : Bytes} (h : ∀ b ∈ bs, b ≠ escape ∧ b ≠ quote)
    (rest : Bytes) :
    Lexeme.closingQuote? escape quote (bs ++ rest) =
      (Lexeme.closingQuote? escape quote rest).map (· + bs.length) := by
  induction bs with
  | nil => simp
  | cons b bs ih =>
    obtain ⟨he, hq⟩ := h b List.mem_cons_self
    rw [List.cons_append, Lexeme.closingQuote?_cons_of_ne he hq,
      ih (fun d hd => h d (List.mem_cons_of_mem b hd)), Option.map_map]
    rfl

theorem ne_ofNat_of_isContinuation {b : UInt8} {c : Char} (h : isContinuation b = true)
    (hc : c.toNat < 0x80) : b ≠ UInt8.ofNat c.toNat := by
  rintro rfl
  have := (isContinuation_iff.mp h).1
  rw [toNat_ofNat_of_ascii hc] at this
  omega

theorem ne_ofNat_of_mem {b : UInt8} {c d : Char} (hne : c ≠ d) (hd : d.toNat < 0x80)
    (h : b ∈ String.utf8EncodeChar c) : b ≠ UInt8.ofNat d.toNat := by
  rintro rfl
  have hb := ascii_encoding_of_not (p := (· == d)) (beq_eq_false_iff_ne.mpr hne) _ h
  rw [ascii_ofNat hd] at hb
  simp at hb

variable {q : Char} (hq : q.toNat < 0x80)
include hq

theorem closingQuote?_plain {c : Char} (he : c ≠ '\\') (hc : c ≠ q) (t : Text) :
    Lexeme.closingQuote? 0x5C (UInt8.ofNat q.toNat) (Text.utf8 (c :: t)) =
      (Lexeme.closingQuote? 0x5C (UInt8.ofNat q.toNat) t.utf8).map (· + c.utf8Size) := by
  have hne (b : UInt8) (hb : b ∈ String.utf8EncodeChar c) : b ≠ 0x5C ∧ b ≠ UInt8.ofNat q.toNat :=
    ⟨ne_ofNat_of_mem (d := '\\') he (by decide) hb, ne_ofNat_of_mem hc hq hb⟩
  rw [Text.utf8_cons, closingQuote?_append_of_ne hne, String.length_utf8EncodeChar]

/-- The escape takes the first byte of a character along, and the others are no quotes. -/
theorem closingQuote?_escaped (c : Char) (t : Text) :
    Lexeme.closingQuote? 0x5C (UInt8.ofNat q.toNat) (Text.utf8 ('\\' :: c :: t)) =
      (Lexeme.closingQuote? 0x5C (UInt8.ofNat q.toNat) t.utf8).map (· + (c.utf8Size + 1)) := by
  obtain ⟨b, bs, he, -, -, hbs⟩ := encoding_cons c
  have hsize := String.length_utf8EncodeChar c
  have hne (d : UInt8) (hd : d ∈ bs) : d ≠ 0x5C ∧ d ≠ UInt8.ofNat q.toNat :=
    ⟨ne_ofNat_of_isContinuation (c := '\\') (hbs d hd) (by decide),
      ne_ofNat_of_isContinuation (hbs d hd) hq⟩
  have hcons : Text.utf8 ('\\' :: c :: t) = 0x5C :: b :: (bs ++ t.utf8) := by
    rw [Text.utf8_cons, Text.utf8_cons, he]
    rfl
  rw [hcons, Lexeme.closingQuote?_escaped, closingQuote?_append_of_ne hne, Option.map_map,
    ← hsize, he]
  rfl

theorem head?_utf8_eq_some_iff {t : Text} :
    t.utf8.head? = some (UInt8.ofNat q.toNat) ↔ t.head? = some q := by
  cases t with
  | nil => simp
  | cons c t =>
    by_cases hc : c = q
    · subst hc
      rw [Text.utf8_cons_of_ascii hq]
      simp
    · obtain ⟨b, bs, he, -⟩ := encoding_cons c
      have hb : b ≠ UInt8.ofNat q.toNat := ne_ofNat_of_mem hc hq (by simp [he])
      rw [Text.utf8_cons, he]
      simp [hb, hc]

theorem closingQuote?_utf8 (hne : q ≠ '\\') (t : Text) :
    Lexeme.closingQuote? 0x5C (UInt8.ofNat q.toNat) t.utf8 =
      (Lexeme.closingQuote? '\\' q t).map t.byteOffset := by
  have hbyte : UInt8.ofNat q.toNat ≠ 0x5C :=
    ne_ofNat_of_mem (d := '\\') hne (by decide) (by simp [encoding_of_ascii hq])
  have hsize := utf8Size_of_ascii hq
  have hescape : '\\'.utf8Size = 1 := rfl
  fun_induction Lexeme.closingQuote? '\\' q t with
  | case1 => rfl
  | case2 c hc =>
    rw [beq_iff_eq] at hc
    subst hc
    rfl
  | case3 c hc hquote =>
    rw [beq_iff_eq] at hquote
    subst hquote
    rw [Text.utf8_cons_of_ascii hq, Lexeme.closingQuote?_closed hbyte (by simp)]
    simp [Text.byteOffset_cons, hsize]
  | case4 c hc hquote =>
    rw [closingQuote?_plain hq (by simpa using hc) (by simpa using hquote)]
    rfl
  | case5 c d rest hc ih =>
    rw [beq_iff_eq] at hc
    subst hc
    -- the byte behind the escape need not be a whole character, so the rest of it is walked over
    rw [closingQuote?_escaped hq, ih]
    simp only [Option.map_map, Function.comp_def, Text.byteOffset_cons, hescape]
    congr 1
    funext n
    omega
  | case6 c d rest hc hquote hd ih =>
    rw [beq_iff_eq] at hquote hd
    subst hquote hd
    rw [Text.utf8_cons_of_ascii hq, Text.utf8_cons_of_ascii hq,
      Lexeme.closingQuote?_doubled hbyte, ih]
    simp only [Option.map_map, Function.comp_def, Text.byteOffset_cons, hsize]
    congr 1
    funext n
    omega
  | case7 c d rest hc hquote hd =>
    rw [beq_iff_eq] at hquote
    subst hquote
    have hhead : (Text.utf8 (d :: rest)).head? ≠ some (UInt8.ofNat c.toNat) := by
      rw [Ne, head?_utf8_eq_some_iff hq]
      simpa using hd
    rw [Text.utf8_cons_of_ascii hq, Lexeme.closingQuote?_closed hbyte hhead]
    simp [Text.byteOffset_cons, hsize]
  | case8 c d rest hc hquote ih =>
    rw [closingQuote?_plain hq (by simpa using hc) (by simpa using hquote), ih]
    simp only [Option.map_map, Function.comp_def, Text.byteOffset_cons, Nat.add_comm]

theorem quoted?_utf8 (hne : q ≠ '\\') (t : Text) :
    Lexeme.quoted? 0x5C (UInt8.ofNat q.toNat) t.utf8 =
      (Lexeme.quoted? '\\' q t).map t.byteOffset := by
  cases t with
  | nil => rfl
  | cons c t =>
    by_cases hc : c = q
    · subst hc
      have hsize := utf8Size_of_ascii hq
      rw [Text.utf8_cons_of_ascii hq, Lexeme.quoted?, Lexeme.quoted?, if_pos (beq_self_eq_true _),
        if_pos (beq_self_eq_true _), closingQuote?_utf8 hq hne]
      simp only [Option.map_map, Function.comp_def, Text.byteOffset_cons, hsize, Nat.add_comm]
    · obtain ⟨b, bs, he, -⟩ := encoding_cons c
      have hb : b ≠ UInt8.ofNat q.toNat := ne_ofNat_of_mem hc hq (by simp [he])
      rw [Text.utf8_cons, he, List.cons_append, Lexeme.quoted?, Lexeme.quoted?,
        if_neg (by simpa using hb), if_neg (by simpa using hc)]
      rfl

end Quotes

section
variable (t : Text)

theorem quotedString?_utf8 :
    quotedString? t.utf8 = (Lexeme.quotedString? t).map t.byteOffset := by
  have hquotes : quotes = Lexeme.quotes.map fun q => UInt8.ofNat q.toNat := rfl
  rw [quotedString?, Lexeme.quotedString?, hquotes, List.findSome?_map, List.map_findSome?]
  simp (disch := decide) only [Lexeme.quotes, List.findSome?_cons, List.findSome?_nil,
    Function.comp_apply, quoted?_utf8]

theorem asciiText_utf8 {t : Text} (h : ∀ c ∈ t, c.toNat < 0x80) : asciiText t.utf8 = t := by
  induction t with
  | nil => rfl
  | cons c t ih =>
    obtain ⟨hc, ht⟩ := List.forall_mem_cons.mp h
    have hrest := ih ht
    rw [asciiText] at hrest ⊢
    rw [Text.utf8_cons_of_ascii hc, List.map_cons, toNat_ofNat_of_ascii hc, Char.ofNat_toNat, hrest]

theorem toNat_lt_of_isTag {tag : Text} (h : Lexeme.IsTag tag) : ∀ c ∈ tag, c.toNat < 0x80 :=
  fun c hc => ofAscii_isWordPart c (h.isWordPart c hc)

theorem dollarTag?_utf8 : dollarTag? t.utf8 = (Lexeme.dollarTag? t).map Text.byteSize := by
  have hsign : '$'.toNat < 0x80 := by decide
  cases t with
  | nil => rfl
  | cons c t =>
    by_cases hc : c = '$'
    · subst hc
      have hcons : Text.utf8 ('$' :: t) = 0x24 :: Text.utf8 t := Text.utf8_cons_of_ascii hsign t
      have hrunning : Lexeme.dollarTag? ('$' :: t) =
          if (t.drop (t.takeWhile isTagPart).length).head? = some '$' then
            some ('$' :: t.takeWhile isTagPart ++ ['$'])
          else none := by
        simp only [Lexeme.dollarTag?, beq_self_eq_true, if_true, beq_iff_eq]
        rfl
      have hsize : Text.byteSize ('$' :: t.takeWhile isTagPart ++ ['$']) =
          Text.byteOffset t (t.takeWhile isTagPart).length + 2 := by
        rw [Text.byteOffset_front (List.takeWhile_prefix isTagPart), List.cons_append,
          Text.byteSize_cons, Text.byteSize_append, Nat.add_comm]
        rfl
      rw [hcons, hrunning, dollarTag?, List.head?_cons, if_pos rfl, List.tail_cons,
        length_takeWhile_utf8 ofAscii_isTagPart]
      dsimp only
      rw [Nat.add_comm 1, List.getElem?_cons_succ, getElem?_byteOffset]
      by_cases hclose : (t.drop (t.takeWhile isTagPart).length).head? = some '$'
      · have hbyte := (head?_utf8_eq_some_iff hsign).mpr hclose
        rw [if_pos hclose, Option.map_some, hsize]
        exact if_pos hbyte
      · have hbyte := mt (head?_utf8_eq_some_iff hsign).mp hclose
        rw [if_neg hclose]
        exact if_neg hbyte
    · have hhead : (Text.utf8 (c :: t)).head? ≠ some 0x24 := by
        have := mt (head?_utf8_eq_some_iff hsign (t := c :: t)).mp (by simpa using hc)
        exact this
      rw [dollarTag?, if_neg hhead, Lexeme.dollarTag?, if_neg (by simpa using hc)]
      rfl

theorem dollarQuote?_utf8 :
    dollarQuote? t.utf8 = some ((Lexeme.dollarQuote? t).map (Option.map t.byteOffset)) := by
  unfold dollarQuote? Lexeme.dollarQuote?
  rw [dollarTag?_utf8]
  cases htag : Lexeme.dollarTag? t with
  | none => rfl
  | some tag =>
    obtain ⟨htag, hp⟩ := Lexeme.dollarTag?_eq_some_iff.mp htag
    have hto : sliceTo? t.utf8 tag.byteSize = some tag.utf8 := by
      rw [← Text.byteOffset_front hp, sliceTo?_byteOffset, ← List.prefix_iff_eq_take.mp hp]
    have hfrom : sliceFrom? t.utf8 tag.byteSize = some (Text.utf8 (t.drop tag.length)) := by
      rw [← Text.byteOffset_front hp, sliceFrom?_byteOffset]
    simp only [Option.map_some, hto, hfrom, Option.bind_eq_bind, Option.bind_some, indexOf?_utf8]
    cases hn : Text.indexOf? tag (t.drop tag.length) with
    | none =>
      rw [asciiText_utf8 (toNat_lt_of_isTag htag)]
      rfl
    | some n =>
      simp only [Option.map_some, Except.map, byteOffset_of_indexOf? hn, Text.byteOffset_front hp]
      rfl

theorem identifier?_utf8 : identifier? t.utf8 = (Lexeme.identifier? t).map t.byteOffset := by
  cases t with
  | nil => rfl
  | cons c t =>
    cases hc : c.isAlpha with
    | true =>
      obtain ⟨b, he, hb, hsize⟩ := utf8_cons_of_pos ofAscii_isAlpha hc
      rw [he, identifier?, if_pos hb, Lexeme.identifier?, if_pos hc,
        length_takeWhile_utf8 ofAscii_isWordPart, Option.map_some, Text.byteOffset_cons, hsize]
    | false =>
      obtain ⟨b, bs, he, -⟩ := encoding_cons c
      have hb : ascii Char.isAlpha b = false := ascii_encoding_of_not hc b (by simp [he])
      rw [Text.utf8_cons, he, List.cons_append, identifier?, if_neg (by simp [hb]),
        Lexeme.identifier?, if_neg (by simp [hc])]
      rfl

theorem blanks?_utf8 : blanks? t.utf8 = (Lexeme.blanks? t).map t.byteOffset := by
  rw [blanks?, length_takeWhile_utf8 ofAscii_isAsciiBlank]
  cases t with
  | nil => rfl
  | cons c t =>
    cases hc : isAsciiBlank c with
    | true =>
      have hpos : 0 < Text.byteOffset (c :: t) ((t.takeWhile isAsciiBlank).length + 1) := by
        have := c.utf8Size_pos
        rw [Text.byteOffset_cons]
        omega
      rw [List.takeWhile_cons_of_pos hc, List.length_cons, if_pos hpos, Lexeme.blanks?, if_pos hc]
      rfl
    | false =>
      have hneg : ¬ isAsciiBlank c = true := by simp [hc]
      rw [List.takeWhile_cons_of_neg hneg, Lexeme.blanks?, if_neg hneg]
      rfl

theorem character?_utf8 : character? t.utf8 = (Lexeme.character? t).map t.byteOffset := by
  cases t with
  | nil => rfl
  | cons c t =>
    obtain ⟨b, bs, he, -, hwidth, -⟩ := encoding_cons c
    rw [Text.utf8_cons, he, character?, Lexeme.character?]
    simp [hwidth, Text.byteOffset_cons]

end
end SqlStatements.Bytes
