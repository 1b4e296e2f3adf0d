import SqlStatements.Proofs.Boundaries
import SqlStatements.Proofs.Resplitting

namespace SqlStatements
open Lexeme

structure Blanks where
  text : Text
  blank : ∀ c ∈ text, isAsciiBlank c = true

/-- Blanks that keep two words apart. -/
structure Space extends Blanks where
  ne_nil : text ≠ []

structure Keyword (word : Text) where
  text : Text
  same : text.sameWord word = true

/-- A letter, and what continues a word. -/
def Text.IsWord (t : Text) : Prop :=
  ∃ c cs, t = c :: cs ∧ c.isAlpha = true ∧ ∀ d ∈ cs, isWordPart d = true

/-- A word that neither opens nor closes a block. -/
structure Name where
  text : Text
  isWord : text.IsWord
  not_begin : text.sameWord ['b', 'e', 'g', 'i', 'n'] = false
  not_end : text.sameWord ['e', 'n', 'd'] = false

structure Brackets where
  opener : Keyword ['b', 'e', 'g', 'i', 'n']
  space : Space
  closer : Keyword ['e', 'n', 'd']

/-- What stands in a block, each item with the blanks before it. -/
inductive Items where
  | nil
  | name (space : Space) (x : Name) (rest : Items)
  | semicolon (blanks : Blanks) (rest : Items)
  | block (space : Space) (brackets : Brackets) (inner : Items) (blanks : Blanks) (rest : Items)
  /-- A block with nothing behind it but the `END` of the block around it. -/
  | last (space : Space) (brackets : Brackets) (inner : Items)

structure Block where
  brackets : Brackets
  items : Items

/-- Every block among the items, or within one of them, has a semicolon behind it. -/
def Items.separated : Items → Bool
  | nil => true
  | name _ _ rest => rest.separated
  | semicolon _ rest => rest.separated
  | block _ _ inner _ rest => inner.separated && rest.separated
  | last _ _ _ => false

def Brackets.text (b : Brackets) (inner : Text) : Text :=
  b.opener.text ++ inner ++ b.space.text ++ b.closer.text

def Items.text : Items → Text
  | nil => []
  | name space x rest => space.text ++ x.text ++ rest.text
  | semicolon blanks rest => blanks.text ++ [';'] ++ rest.text
  | block space brackets inner blanks rest =>
    space.text ++ brackets.text inner.text ++ blanks.text ++ [';'] ++ rest.text
  | last space brackets inner => space.text ++ brackets.text inner.text

def Block.text (b : Block) : Text := b.brackets.text b.items.text

namespace Token

def word (x : Text) : Token := ⟨.identifier, x, 0⟩

@[simp] theorem text_word (x : Text) : (word x).text = x := rfl

end Token

open Token

def Blanks.before (b : Blanks) (t : Token) : List Token :=
  if b.text = [] then [t] else [⟨.whitespace, b.text, 0⟩, t]

/-- The tokens of a block behind its `BEGIN`. -/
def Brackets.behind (b : Brackets) (inner : List Token) : List Token :=
  inner ++ b.space.before (word b.closer.text)

def Items.tokens : Items → List Token
  | nil => []
  | name space x rest => space.before (word x.text) ++ rest.tokens
  | semicolon blanks rest => blanks.before Token.semicolon ++ rest.tokens
  | block space brackets inner blanks rest =>
    space.before (word brackets.opener.text) ++ brackets.behind inner.tokens ++
      (blanks.before Token.semicolon ++ rest.tokens)
  | last space brackets inner =>
    space.before (word brackets.opener.text) ++ brackets.behind inner.tokens

def Block.tokens (b : Block) : List Token :=
  word b.brackets.opener.text :: b.brackets.behind b.items.tokens

/-- However a word of letters is spelled, it is a word. -/
theorem Text.isWord_of_sameWord {t word : Text} (h : t.sameWord word = true) (hne : word ≠ [])
    (hword : ∀ c ∈ word, c.toLower.isAlpha = true) : t.IsWord := by
  have hmap : t.map Char.toLower = word.map Char.toLower := by simpa [Text.sameWord] using h
  have halpha : ∀ c ∈ t, c.isAlpha = true := by
    intro c hc
    obtain ⟨d, hd, he⟩ := List.mem_map.mp (hmap ▸ List.mem_map_of_mem (f := Char.toLower) hc)
    rw [← isAlpha_toLower, ← he]
    exact hword d hd
  cases t with
  | nil => exact absurd (by simpa using hmap.symm) hne
  | cons c cs =>
    refine ⟨c, cs, rfl, halpha c (by simp), ?_⟩
    intro d hd
    exact isWordPart_of_isAlpha (halpha d (by simp [hd]))

theorem Text.IsWord.nonblank {t : Text} (h : t.IsWord) : ∀ c ∈ t, isBlank c = false := by
  obtain ⟨c, cs, rfl, hc, hcs⟩ := h
  intro d hd
  apply isBlank_of_isWordPart
  rcases List.mem_cons.mp hd with rfl | hd
  · exact isWordPart_of_isAlpha hc
  · exact hcs d hd

theorem Text.IsWord.ne_nil {t : Text} (h : t.IsWord) : t ≠ [] := by
  obtain ⟨c, cs, rfl, -⟩ := h
  simp

theorem Brackets.isWord_opener (b : Brackets) : b.opener.text.IsWord :=
  Text.isWord_of_sameWord b.opener.same (by simp) (by simp)

theorem Brackets.isWord_closer (b : Brackets) : b.closer.text.IsWord :=
  Text.isWord_of_sameWord b.closer.same (by simp) (by simp)

/-- No word goes on at the front of the text. -/
def Text.Parted (w : Text) : Prop := ∀ c ∈ w.head?, isWordPart c = false

theorem leads_word {x w : Text} (hx : x.IsWord) (hw : w.Parted) : Leads .standard (word x) w := by
  obtain ⟨c, cs, rfl, hc, hcs⟩ := hx
  have hidentifier := identifier?_append_iff.mpr ⟨c, cs, rfl, hc, hcs, hw⟩
  refine ⟨by simp [word], .identifier (unquoted_of_head ?_ ?_ _) hidentifier⟩
  · intro h
    simp only [List.mem_cons, List.not_mem_nil, or_false] at h
    rcases h with rfl | rfl | rfl | rfl <;> cases hc
  · intro h
    simp only [quotes, List.mem_cons, List.not_mem_nil, or_false] at h
    rcases h with rfl | rfl | rfl <;> cases hc

namespace Blanks

/-- Blanks are a token of their own where no blank follows them. -/
theorem front (b : Blanks) {t : Token} {w : Text} (h : Leads .standard t w)
    (ht : ∀ c ∈ t.text.head?, isAsciiBlank c = false) :
    Front .standard (b.text ++ (t.text ++ w)) (b.before t) w := by
  have hfront : Front .standard (t.text ++ w) [t] w := .token h (.nothing w)
  unfold before
  split
  · rename_i hb
    rw [hb]
    exact hfront
  · rename_i hb
    refine .token (t := ⟨.whitespace, b.text, 0⟩) (leads_blanks hb b.blank ?_) hfront
    rw [List.head?_append_of_ne_nil _ h.1]
    exact ht

theorem front_word (b : Blanks) {x w : Text} (hx : x.IsWord) (hw : w.Parted) :
    Front .standard (b.text ++ (x ++ w)) (b.before (word x)) w := by
  apply b.front (leads_word hx hw)
  intro c hc
  exact isAsciiBlank_eq_false (hx.nonblank c (List.mem_of_head? hc))

theorem front_semicolon (b : Blanks) (w : Text) :
    Front .standard (b.text ++ ([';'] ++ w)) (b.before Token.semicolon) w :=
  b.front (leads_semicolon w) (by simp [Token.semicolon, isAsciiBlank])

end Blanks

theorem Blanks.parted (b : Blanks) {w : Text} (h : w.Parted) : Text.Parted (b.text ++ w) := by
  intro c hc
  cases hb : b.text with
  | nil =>
    rw [hb] at hc
    exact h c hc
  | cons d ds =>
    rw [hb] at hc
    obtain rfl := Option.some.inj hc
    exact isWordPart_eq_false_of_isAsciiBlank (b.blank d (by simp [hb]))

theorem Blanks.parted_semicolon (b : Blanks) (w : Text) :
    Text.Parted (b.text ++ ([';'] ++ w)) := by
  apply b.parted
  intro c hc
  obtain rfl := Option.some.inj hc
  decide

theorem Space.parted (s : Space) (w : Text) : Text.Parted (s.text ++ w) := by
  have hhead : (s.text ++ w).head? = (s.text ++ []).head? := by
    rw [List.append_nil, List.head?_append_of_ne_nil _ s.ne_nil]
  unfold Text.Parted
  rw [hhead]
  exact s.toBlanks.parted (by simp [Text.Parted])

theorem Items.parted (items : Items) {w : Text} (h : w.Parted) :
    Text.Parted (items.text ++ w) := by
  cases items with
  | nil => exact h
  | name space x rest => simpa [Items.text] using space.parted _
  | semicolon blanks rest =>
    simpa [Items.text] using blanks.parted_semicolon (rest.text ++ w)
  | block space brackets inner blanks rest => simpa [Items.text] using space.parted _
  | last space brackets inner => simpa [Items.text] using space.parted _

/-- The items of a block and its `END` are read in front of any text that parts words. -/
theorem Brackets.front (b : Brackets) {inner w : Text} {ts : List Token}
    (h : ∀ {v : Text}, v.Parted → Front .standard (inner ++ v) ts v) (hw : w.Parted) :
    Front .standard (inner ++ (b.space.text ++ (b.closer.text ++ w))) (b.behind ts) w :=
  (h (b.space.parted _)).append (b.space.front_word b.isWord_closer hw)

theorem Items.front (items : Items) {w : Text} (hw : w.Parted) :
    Front .standard (items.text ++ w) items.tokens w := by
  induction items generalizing w with
  | nil => exact .nothing w
  | name space x rest ih =>
    have hname := space.front_word x.isWord (rest.parted hw)
    simpa [Items.text, Items.tokens] using hname.append (ih hw)
  | semicolon blanks rest ih =>
    have hsemicolon := blanks.front_semicolon (rest.text ++ w)
    simpa [Items.text, Items.tokens] using hsemicolon.append (ih hw)
  | block space brackets inner blanks rest ihinner ihrest =>
    have hopener := space.front_word brackets.isWord_opener
      (inner.parted (brackets.space.parted (brackets.closer.text ++
        (blanks.text ++ ([';'] ++ (rest.text ++ w))))))
    have hinner := brackets.front ihinner (blanks.parted_semicolon (rest.text ++ w))
    have hrest := (blanks.front_semicolon (rest.text ++ w)).append (ihrest hw)
    simpa [Items.text, Items.tokens, Brackets.text] using (hopener.append hinner).append hrest
  | last space brackets inner ih =>
    have hopener := space.front_word brackets.isWord_opener
      (inner.parted (brackets.space.parted (brackets.closer.text ++ w)))
    simpa [Items.text, Items.tokens, Brackets.text] using hopener.append (brackets.front ih hw)

theorem Block.front (b : Block) {w : Text} (hw : w.Parted) :
    Front .standard (b.text ++ w) b.tokens w := by
  have hopener := leads_word b.brackets.isWord_opener
    (b.items.parted (b.brackets.space.parted (b.brackets.closer.text ++ w)))
  simpa [Block.text, Block.tokens, Brackets.text] using
    Front.token hopener (b.brackets.front b.items.front hw)

namespace Assembly

/-- Some block is open all the time while the tokens lead from one mode to another. -/
def Mode.Walk (m : Mode) (ts : List Token) (n : Mode) : Prop :=
  ∀ a : Assembly, a.mode = m → a.StaysInside ts ∧ (a.readAll ts).mode = n

theorem StaysInside.append {a : Assembly} {ts us : List Token} (h : a.StaysInside ts)
    (k : (a.readAll ts).StaysInside us) : a.StaysInside (ts ++ us) := by
  induction ts generalizing a with
  | nil => exact k
  | cons t ts ih =>
    have htail : (a.read t).StaysInside ts := fun vs hv => h (t :: vs) (by simpa using hv)
    exact (ih htail k).cons (h [] List.nil_prefix)

namespace Mode.Walk
variable {m n o : Mode} {ts us : List Token} {t : Token}

theorem trans (h : m.Walk ts n) (k : n.Walk us o) : m.Walk (ts ++ us) o := by
  intro a ha
  obtain ⟨hin, hm⟩ := h a ha
  obtain ⟨hin', hm'⟩ := k _ hm
  refine ⟨hin.append hin', ?_⟩
  rw [readAll_append]
  exact hm'

theorem nothing (hm : m.isInside = true) : m.Walk [] m := by
  intro a ha
  refine ⟨?_, ha⟩
  intro us hu
  rw [List.prefix_nil.mp hu, readAll_nil, ha]
  exact hm

theorem one (hm : m.isInside = true) (hn : n.isInside = true)
    (h : ∀ a : Assembly, a.mode = m → (a.read t).mode = n) : m.Walk [t] n := by
  intro a ha
  have hnext := (nothing hn _ (h a ha)).1
  exact ⟨hnext.cons (by rw [ha]; exact hm), h a ha⟩

end Mode.Walk

/-- More blocks are open than the one on top of `n` others. An `END` may be waiting. -/
def Deeper (n : Nat) (m : Mode) : Prop :=
  ∃ top below, n < below.length ∧ (m = .block top below ∨ m = .closing top below [])

end Assembly

open Assembly

/-- No word is both keywords. -/
theorem Keyword.not_begin (k : Keyword ['e', 'n', 'd']) :
    k.text.sameWord ['b', 'e', 'g', 'i', 'n'] = false := by
  have hend := k.same
  simp only [Text.sameWord, beq_iff_eq] at hend
  simp only [Text.sameWord, hend]
  decide

namespace Blanks
variable {top next : Frame} {below : List Frame} {t : Token} {n : Mode}

/-- Within a block blanks are kept, and the token behind them decides. -/
theorem walk_block (b : Blanks) (hn : n.isInside = true)
    (h : ∀ a : Assembly, a.mode = .block top below → (a.read t).mode = n) :
    Mode.Walk (.block top below) (b.before t) n := by
  have hlast : Mode.Walk (.block top below) [t] n := .one rfl hn h
  unfold before
  split
  · exact hlast
  · refine .trans (.one rfl rfl ?_) hlast
    intro a ha
    rw [read_block ha]
    exact ha

/-- Behind an `END` blanks are held, and the token behind them decides. -/
theorem walk_closing (b : Blanks) (hn : n.isInside = true)
    (h : ∀ (a : Assembly) held, a.mode = .closing top below held → (a.read t).mode = n) :
    Mode.Walk (.closing top below []) (b.before t) n := by
  unfold before
  split
  · exact .one rfl hn fun a ha => h a [] ha
  · refine .trans (n := .closing top below b.text) (.one rfl rfl ?_) (.one rfl hn fun a ha => ?_)
    · intro a ha
      rw [read_closing ha]
      rfl
    · exact h a _ ha

theorem walk_name (b : Blanks) (x : Name) :
    Mode.Walk (.block top below) (b.before (word x.text)) (.block top below) := by
  apply b.walk_block rfl
  intro a ha
  rw [read_block ha, readBlock]
  simp [word, Token.isEof, isBegin, isEnd, isKeyword, x.not_begin, x.not_end, ha]

theorem walk_semicolon (b : Blanks) :
    Mode.Walk (.block top below) (b.before Token.semicolon) (.block top below) := by
  apply b.walk_block rfl
  intro a ha
  rw [read_block ha]
  exact ha

theorem walk_begin (b : Blanks) (k : Keyword ['b', 'e', 'g', 'i', 'n']) (top : Frame)
    (below : List Frame) :
    Mode.Walk (.block top below) (b.before (word k.text)) (.block ⟨false⟩ (top :: below)) := by
  apply b.walk_block rfl
  intro a ha
  rw [read_block ha, readBlock]
  simp [word, Token.isEof, isBegin, isKeyword, k.same]

theorem walk_end (b : Blanks) (k : Keyword ['e', 'n', 'd']) :
    Mode.Walk (.block top below) (b.before (word k.text)) (.closing top below []) := by
  apply b.walk_block rfl
  intro a ha
  rw [read_block ha, readBlock]
  simp [word, Token.isEof, isBegin, isEnd, isKeyword, k.not_begin, k.same]

/-- A semicolon behind an `END` closes the block. -/
theorem walk_close (b : Blanks) :
    Mode.Walk (.closing top (next :: below) []) (b.before Token.semicolon)
      (.block next below) := by
  apply b.walk_closing rfl
  intro a held ha
  rw [read_closing ha, readClosing]
  simp [Token.semicolon, Token.isEof, isTrivia, mode_close]

/-- A second `END` behind an `END` is read like any other word: the block goes on. -/
theorem walk_on (b : Blanks) (k : Keyword ['e', 'n', 'd']) :
    Mode.Walk (.closing top below []) (b.before (word k.text)) (.block top below) := by
  apply b.walk_closing rfl
  intro a held ha
  have hsemicolon : k.text ≠ [';'] := by
    intro h
    have := k.same
    rw [h] at this
    cases this
  rw [read_closing ha, readClosing]
  simp [word, Token.isEof, isTrivia, hsemicolon]

end Blanks

namespace Assembly.Deeper
variable {n : Nat} {m : Mode}

theorem mono {k : Nat} (h : Deeper k m) (hn : n ≤ k) : Deeper n m := by
  obtain ⟨top, below, hlt, hm⟩ := h
  exact ⟨top, below, Nat.lt_of_le_of_lt hn hlt, hm⟩

/-- An `END` waits for its closer, or keeps the one before it from closing its block. -/
theorem walk_end (h : Deeper n m) (b : Blanks) (k : Keyword ['e', 'n', 'd']) :
    ∃ m', m.Walk (b.before (word k.text)) m' ∧ Deeper n m' := by
  obtain ⟨top, below, hlt, rfl | rfl⟩ := h
  · exact ⟨_, b.walk_end k, top, below, hlt, .inr rfl⟩
  · exact ⟨_, b.walk_on k, top, below, hlt, .inl rfl⟩

/-- A semicolon closes one block at most. -/
theorem walk_semicolon (h : Deeper n m) (b : Blanks) :
    ∃ top below, n ≤ below.length ∧ m.Walk (b.before Token.semicolon) (.block top below) := by
  obtain ⟨top, below, hlt, rfl | rfl⟩ := h
  · exact ⟨top, below, Nat.le_of_lt hlt, b.walk_semicolon⟩
  · cases below with
    | nil => cases hlt
    | cons next below => exact ⟨next, below, Nat.le_of_lt_succ hlt, b.walk_close⟩

end Assembly.Deeper

/-- Blocks that all have a semicolon behind them leave the stack as it was. -/
theorem Items.walk_of_separated {items : Items} (h : items.separated = true) (top : Frame)
    (below : List Frame) : Mode.Walk (.block top below) items.tokens (.block top below) := by
  induction items generalizing top below with
  | nil => exact .nothing rfl
  | name space x rest ih => exact (space.walk_name x).trans (ih h top below)
  | semicolon blanks rest ih => exact blanks.walk_semicolon.trans (ih h top below)
  | block space brackets inner blanks rest ihinner ihrest =>
    obtain ⟨hinner, hrest⟩ : inner.separated = true ∧ rest.separated = true := by
      simpa [separated] using h
    have hopen := space.walk_begin brackets.opener top below
    have hclose := (ihinner hinner ⟨false⟩ (top :: below)).trans
      (brackets.space.walk_end brackets.closer)
    exact (hopen.trans hclose).trans (blanks.walk_close.trans (ihrest hrest top below))
  | last space brackets inner => cases h

/-- From there the `END` of the block around them waits for its closer. -/
theorem Brackets.walk_of_separated (b : Brackets) {inner : Items} (h : inner.separated = true)
    (top : Frame) (below : List Frame) :
    Mode.Walk (.block top below) (b.behind inner.tokens) (.closing top below []) :=
  (Items.walk_of_separated h top below).trans (b.space.walk_end b.closer)

/-- Blocks that have not been closed stay open behind the `END` of the block around them. -/
theorem Brackets.walk_of_deeper (b : Brackets) {inner : List Token} {m m' : Mode} {n : Nat}
    (h : m.Walk inner m') (hm : Deeper n m') :
    ∃ m'', m.Walk (b.behind inner) m'' ∧ Deeper n m'' := by
  obtain ⟨m'', hend, hm'⟩ := hm.walk_end b.space.toBlanks b.closer
  exact ⟨m'', h.trans hend, hm'⟩

/-- Once an `END` directly behind an `END` has been passed over, too many blocks are open. -/
theorem Items.walk_of_not_separated {items : Items} (h : items.separated = false) (top : Frame)
    (below : List Frame) :
    ∃ m, Mode.Walk (.block top below) items.tokens m ∧ Deeper below.length m := by
  induction items generalizing top below with
  | nil => cases h
  | name space x rest ih =>
    obtain ⟨m, hwalk, hm⟩ := ih h top below
    exact ⟨m, (space.walk_name x).trans hwalk, hm⟩
  | semicolon blanks rest ih =>
    obtain ⟨m, hwalk, hm⟩ := ih h top below
    exact ⟨m, blanks.walk_semicolon.trans hwalk, hm⟩
  | block space brackets inner blanks rest ihinner ihrest =>
    have hopen := space.walk_begin brackets.opener top below
    cases hinner : inner.separated with
    | true =>
      have hrest : rest.separated = false := by simpa [separated, hinner] using h
      obtain ⟨m, hwalk, hm⟩ := ihrest hrest top below
      have hclose := hopen.trans (brackets.walk_of_separated hinner ⟨false⟩ (top :: below))
      exact ⟨m, hclose.trans (blanks.walk_close.trans hwalk), hm⟩
    | false =>
      -- of the frames that are left over the semicolon takes away one at most
      obtain ⟨m₁, hitems, hm₁⟩ := ihinner hinner ⟨false⟩ (top :: below)
      obtain ⟨m₂, hend, hm₂⟩ := brackets.walk_of_deeper hitems hm₁
      obtain ⟨next, others, hlt, hsemicolon⟩ := hm₂.walk_semicolon blanks
      have hclose := hopen.trans hend
      cases hrest : rest.separated with
      | true =>
        have hwalk := walk_of_separated hrest next others
        exact ⟨_, hclose.trans (hsemicolon.trans hwalk), next, others, hlt, .inl rfl⟩
      | false =>
        obtain ⟨m, hwalk, hm⟩ := ihrest hrest next others
        exact ⟨m, hclose.trans (hsemicolon.trans hwalk), hm.mono (Nat.le_of_lt hlt)⟩
  | last space brackets inner ih =>
    have hopen := space.walk_begin brackets.opener top below
    cases hinner : inner.separated with
    | true =>
      -- the inner block's `END` is still waiting, so that its frame is one more than before
      have hclose := hopen.trans (brackets.walk_of_separated hinner ⟨false⟩ (top :: below))
      exact ⟨_, hclose, ⟨false⟩, top :: below, Nat.lt_succ_self _, .inr rfl⟩
    | false =>
      obtain ⟨m₁, hitems, hm₁⟩ := ih hinner ⟨false⟩ (top :: below)
      obtain ⟨m₂, hend, hm₂⟩ := brackets.walk_of_deeper hitems hm₁
      exact ⟨m₂, hopen.trans hend, hm₂.mono (Nat.le_succ _)⟩

/-- A script is split as its first tokens, and those of the text behind them, are read. -/
theorem Token.Front.split_iff {w r : Text} {ts : List Token} {xs : List Text}
    (h : Front .standard w ts r) :
    (split .standard w).result = .ok xs ↔
      (TokenStream.read .standard 0 r).unclosed = none ∧
        (empty.readAll (ts ++ (TokenStream.read .standard 0 r).tokens)).conclude.statements =
          xs := by
  obtain ⟨hcontent, hunclosed⟩ := h.content_read 0
  rw [← List.map_append] at hcontent
  rw [result_split_standard, splitUnchecked_ok_iff, hunclosed,
    ((Alike.refl empty).readAll hcontent).conclude.statements]

namespace Block
variable (b : Block)

def begun : Assembly := empty.read (word b.brackets.opener.text)

theorem begun_fields : b.begun.mode = .block ⟨true⟩ [] ∧ b.begun.gap = .none ∧
    b.begun.statements = [] ∧ b.begun.buffer.text = b.brackets.opener.text := by
  have hbegin : (word b.brackets.opener.text).isBegin = true := by
    simp [word, isBegin, isKeyword, b.brackets.opener.same]
  exact read_begin_fields rfl hbegin

theorem text_eq : b.text = b.brackets.opener.text ++
    (b.brackets.behind b.items.tokens).flatMap Token.text := by
  have hspells := (b.front (w := []) (by simp [Text.Parted])).spells
  simpa [tokens] using hspells

theorem front_semicolon (rest : Text) :
    Front .standard (b.text ++ ';' :: rest) (b.tokens ++ [Token.semicolon]) rest := by
  have hsemicolon : Front .standard (';' :: rest) [Token.semicolon] rest :=
    .token (leads_semicolon rest) (.nothing rest)
  apply (b.front _).append hsemicolon
  intro c hc
  obtain rfl := Option.some.inj hc
  decide

theorem isEof_semicolon :
    ∀ t ∈ b.brackets.behind b.items.tokens ++ [Token.semicolon], t.isEof = false := by
  intro t ht
  obtain ⟨v, hlead⟩ := (b.front_semicolon []).leads_of_mem t (List.mem_cons_of_mem _ ht)
  exact hlead.isEof

theorem head_text (w : Text) : ∃ c ∈ (b.text ++ w).head?, isBlank c = false := by
  have hword := b.brackets.isWord_opener
  refine ⟨b.brackets.opener.text.head hword.ne_nil, ?_, hword.nonblank _ (List.head_mem _)⟩
  simp [text, Brackets.text, List.head?_eq_some_head hword.ne_nil]

theorem kept_text : b.text.kept = [b.text] := by
  have hword := b.brackets.isWord_closer
  apply Text.kept_of_edges
  · simpa using b.head_text []
  · refine ⟨b.brackets.closer.text.getLast hword.ne_nil, ?_, hword.nonblank _ (List.getLast_mem _)⟩
    simp [text, Brackets.text, List.getLast?_eq_some_getLast hword.ne_nil]

variable {b}

/-- The semicolon behind the `END` of a block ends its statement. -/
theorem fresh_of_separated (h : b.items.separated = true) :
    (b.begun.readAll (b.brackets.behind b.items.tokens ++ [Token.semicolon])).Fresh ∧
      (b.begun.readAll (b.brackets.behind b.items.tokens ++ [Token.semicolon])).statements =
        [b.text] := by
  obtain ⟨hm, hg, hst, hbuf⟩ := b.begun_fields
  obtain ⟨hinside, hlast⟩ := b.brackets.walk_of_separated h ⟨true⟩ [] b.begun hm
  have hspan : b.begun.BlockSpan (b.brackets.behind b.items.tokens) [] [Token.semicolon] [] := by
    refine ⟨by simpa using hinside, by simp, ?_⟩
    rw [hlast]
    exact .closed rfl rfl
  obtain ⟨hfresh, hkept⟩ := hspan.fresh_of_closer hm hg (by simpa using b.isEof_semicolon)
    (by simp)
  have htail : [Token.semicolon].flatMap tail = [] := rfl
  simp only [htail, List.append_nil] at hfresh hkept
  rw [hst, hbuf, ← b.text_eq, b.kept_text] at hkept
  exact ⟨hfresh, hkept⟩

/-- A block closes at its own `END`, however deeply blocks are nested in it, if all of those have
a semicolon behind them. The script goes on behind it as if it began there. -/
theorem split_of_separated (h : b.items.separated = true) {rest : Text} {xs : List Text}
    (hrest : (split .standard rest).result = .ok xs) :
    (split .standard (b.text ++ ';' :: rest)).result = .ok (b.text :: xs) := by
  obtain ⟨hfresh, hblock⟩ := b.fresh_of_separated h
  rw [result_split_standard, splitUnchecked_ok_iff] at hrest
  obtain ⟨hclosed, hstatements⟩ := hrest
  rw [(b.front_semicolon rest).split_iff]
  refine ⟨hclosed, ?_⟩
  have hall := hfresh.conclude (Eq.refl
    ((TokenStream.read .standard 0 rest).tokens.map Token.content))
  rw [hblock, hstatements, ← readAll_append] at hall
  exact hall

/-- Without an `END` an open block stays open. -/
theorem walk_of_no_end {ts : List Token} (heof : ∀ t ∈ ts, t.isEof = false)
    (hend : ∀ t ∈ ts, t.isEnd = false) (top : Frame) (below : List Frame) :
    ∃ next others, Mode.Walk (.block top below) ts (.block next others) := by
  induction ts generalizing top below with
  | nil => exact ⟨top, below, .nothing rfl⟩
  | cons t ts ih =>
    obtain ⟨next, others, hread⟩ : ∃ next others,
        Mode.Walk (.block top below) [t] (.block next others) := by
      cases hb : t.isBegin with
      | true =>
        refine ⟨⟨false⟩, top :: below, .one rfl rfl ?_⟩
        intro a ha
        simp [read_block ha, readBlock, heof t (by simp), hb]
      | false =>
        refine ⟨top, below, .one rfl rfl ?_⟩
        intro a ha
        simp [read_block ha, readBlock, heof t (by simp), hb, hend t (by simp), ha]
    obtain ⟨last, under, hwalk⟩ := ih (fun u hu => heof u (by simp [hu]))
      (fun u hu => hend u (by simp [hu])) next others
    exact ⟨last, under, hread.trans hwalk⟩

/-- The semicolon behind a block does not end its statement if blocks are open that have been
passed over. -/
theorem walk_semicolon (h : b.items.separated = false) :
    ∃ top below, Mode.Walk (.block ⟨true⟩ [])
      (b.brackets.behind b.items.tokens ++ [Token.semicolon]) (.block top below) := by
  obtain ⟨m, hitems, hm⟩ := Items.walk_of_not_separated h ⟨true⟩ []
  obtain ⟨m', hend, hm'⟩ := b.brackets.walk_of_deeper hitems hm
  obtain ⟨top, below, -, hsemicolon⟩ := hm'.walk_semicolon ⟨[], by simp⟩
  exact ⟨top, below, hend.trans hsemicolon⟩

/-- A block with an `END` directly behind an `END` in it swallows a script without another
`END`. -/
theorem split_of_not_separated (h : b.items.separated = false) {rest : Text}
    (hclosed : (TokenStream.read .standard 0 rest).unclosed = none)
    (hend : ∀ t ∈ (TokenStream.read .standard 0 rest).tokens, t.isEnd = false) :
    (split .standard (b.text ++ ';' :: rest)).result = .ok (b.text ++ ';' :: rest).kept := by
  obtain ⟨hm, -, hst, hbuf⟩ := b.begun_fields
  obtain ⟨hchain, hspells⟩ := TokenStream.chain_read hclosed
  obtain ⟨top, below, hsemicolon⟩ := b.walk_semicolon h
  obtain ⟨last, under, hrest⟩ := walk_of_no_end hchain.isEof hend top below
  obtain ⟨hinside, hlast⟩ := hsemicolon.trans hrest b.begun hm
  have heof : ∀ t ∈ b.brackets.behind b.items.tokens ++ [Token.semicolon] ++
      (TokenStream.read .standard 0 rest).tokens, t.isEof = false := by
    intro t ht
    rcases List.mem_append.mp ht with ht | ht
    · exact b.isEof_semicolon t ht
    · exact hchain.isEof t ht
  have htext : b.text ++ ';' :: rest = b.brackets.opener.text ++
      (b.brackets.behind b.items.tokens ++ [Token.semicolon] ++
        (TokenStream.read .standard 0 rest).tokens).flatMap Token.text := by
    have hrest : (TokenStream.read .standard 0 rest).tokens.flatMap Token.text = rest := hspells
    rw [b.text_eq, List.flatMap_append, List.flatMap_append, hrest, List.append_assoc,
      List.append_assoc]
    rfl
  have hkeeps := hinside.keeps (by rw [hm]; rfl) heof
  have hbuffer := hkeeps.text
  rw [hlast, hm, hbuf] at hbuffer
  simp only [Mode.held, List.append_nil] at hbuffer
  have hstatements := conclude_block hlast
  rw [hkeeps.statements, hst, hbuffer, ← htext] at hstatements
  rw [(b.front_semicolon rest).split_iff]
  exact ⟨hclosed, hstatements⟩

end Block

/-- A block is split off at its own `END` if every block in it has a semicolon behind it. The
`END` directly behind an inner block's `END` shows that the inner block goes on, so that neither
closes a block: the statement then runs on over what follows. -/
theorem split_nested_block (b : Block) :
    (split .standard (b.text ++ "; SELECT 1;".toList)).result =
      .ok (if b.items.separated then [b.text, "SELECT 1".toList]
        else [b.text ++ "; SELECT 1;".toList]) := by
  have hrest : "; SELECT 1;".toList = ';' :: " SELECT 1;".toList := rfl
  rw [hrest]
  cases h : b.items.separated with
  | true =>
    have hselect : (split .standard " SELECT 1;".toList).result = .ok ["SELECT 1".toList] := by
      rw [result_split_standard, splitUnchecked_ok_iff]
      decide +kernel
    exact Block.split_of_separated h hselect
  | false =>
    have hkept : (b.text ++ ';' :: " SELECT 1;".toList).kept =
        [b.text ++ ';' :: " SELECT 1;".toList] := by
      apply Text.kept_of_edges (b.head_text _)
      refine ⟨';', ?_, by decide⟩
      simp [List.getLast?_append]
    have hsplit : (split .standard (b.text ++ ';' :: " SELECT 1;".toList)).result =
        .ok (b.text ++ ';' :: " SELECT 1;".toList).kept :=
      Block.split_of_not_separated h (by decide +kernel) (by decide +kernel)
    rw [hsplit, hkept]
    rfl

/-- The second `END` does not close the outer block. -/
theorem not_all_nested_blocks_close :
    ¬ ∀ b : Block, (split .standard (b.text ++ "; SELECT 1;".toList)).result =
      .ok [b.text, "SELECT 1".toList] := by
  intro h
  let brackets : Brackets :=
    ⟨⟨"BEGIN".toList, by decide⟩, ⟨⟨[' '], by simp [isAsciiBlank]⟩, by simp⟩,
      ⟨"END".toList, by decide⟩⟩
  let b : Block := ⟨brackets, .last brackets.space brackets .nil⟩
  have hsplit := h b
  rw [result_split_standard, splitUnchecked_ok_iff] at hsplit
  revert hsplit
  decide +kernel

end SqlStatements
