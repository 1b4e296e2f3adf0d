import Mathlib.Data.List.Forall2
import SqlStatements.Command.Run
import SqlStatements.Proofs.Places
import SqlStatements.Proofs.Unquoting

namespace SqlStatements

namespace Token.Kind

theorem find?_name (kind : Token.Kind) :
    (all.find? fun k => k.name.toList == kind.name.toList) = some kind := by
  cases kind <;> rfl

theorem name_ne_nil (kind : Token.Kind) : kind.name.toList ≠ [] := by
  cases kind <;> decide

theorem isAlpha_of_mem_name {kind : Token.Kind} {c : Char} (hc : c ∈ kind.name.toList) :
    c.isAlpha = true := by
  have hall : kind.name.toList.all Char.isAlpha = true := by cases kind <;> decide
  exact List.all_eq_true.mp hall c hc

end Token.Kind

namespace Command

/-- What a line of the report tells of a token. -/
structure Row where
  place : Position
  start : Nat
  stop : Nat
  kind : Token.Kind
  text : Text
deriving DecidableEq

def Row.ofToken (place : Position) (t : Token) : Row := ⟨place, t.start, t.stop, t.kind, t.text⟩

def rowLine (place : Position) (t : Token) : Text := (tokenLine place t).dropLast

def spaces (count : Nat) : Text := List.replicate count ' '

/-- The characters with a property behind the spaces at the head of a text, and what follows. -/
def readField (p : Char → Bool) (t : Text) : Text × Text :=
  let shown := t.dropWhile (· == ' ')
  (shown.takeWhile p, shown.dropWhile p)

def readNumber (t : Text) : Nat × Text :=
  let (digits, rest) := readField Char.isDigit t
  (Nat.ofDigitChars 10 digits 0, rest)

def readRow? (line : Text) : Option Row := do
  let (lineNumber, rest) := readNumber line
  let (column, rest) := readNumber (rest.drop 1)
  let (start, rest) := readNumber (rest.drop 1)
  let (stop, rest) := readNumber (rest.drop 2)
  let (name, rest) := readField Char.isAlpha (rest.drop 1)
  let kind ← Token.Kind.all.find? fun kind => kind.name.toList == name
  let text ← Text.unquoted? (rest.dropWhile (· == ' '))
  return ⟨⟨lineNumber, column⟩, start, stop, kind, text⟩

theorem dropWhile_spaces (count : Nat) (rest : Text) :
    (spaces count ++ rest).dropWhile (· == ' ') = rest.dropWhile (· == ' ') :=
  List.dropWhile_append_of_pos fun _ hc => beq_iff_eq.mpr (List.eq_of_mem_replicate hc)

/-- A field ends at the first character that does not belong to it. -/
theorem readField_spaces {p : Char → Bool} (hp : p ' ' = false) {shown : Text} (hne : shown ≠ [])
    (hshown : ∀ c ∈ shown, p c = true) {d : Char} (hd : p d = false) (count : Nat) (rest : Text) :
    readField p (spaces count ++ (shown ++ d :: rest)) = (shown, d :: rest) := by
  obtain ⟨c, cs, rfl⟩ := List.exists_cons_of_ne_nil hne
  have hc : c ≠ ' ' := by
    rintro rfl
    exact absurd ((hshown _ List.mem_cons_self).symm.trans hp) (by decide)
  have hskip : (c :: cs ++ d :: rest).dropWhile (· == ' ') = c :: cs ++ d :: rest :=
    List.dropWhile_cons_of_neg (by simpa using hc)
  rw [readField, dropWhile_spaces, hskip, List.takeWhile_append_of_pos hshown,
    List.dropWhile_append_of_pos hshown, List.takeWhile_cons_of_neg (by simp [hd]),
    List.dropWhile_cons_of_neg (by simp [hd]), List.append_nil]

theorem isDigit_of_mem_decimal {n : Nat} {c : Char} (h : c ∈ decimal n) : c.isDigit = true :=
  Nat.isDigit_of_mem_toDigits (by decide) (by decide) h

theorem readNumber_spaces {d : Char} (hd : d.isDigit = false) (count n : Nat) (rest : Text) :
    readNumber (spaces count ++ (decimal n ++ d :: rest)) = (n, d :: rest) := by
  have hne : decimal n ≠ [] := Nat.toDigits_ne_nil
  rw [readNumber, readField_spaces rfl hne (fun _ => isDigit_of_mem_decimal) hd]
  dsimp only
  rw [decimal, Nat.ofDigitChars_ten_toDigits]

theorem spaces_append (m n : Nat) (rest : Text) :
    spaces m ++ (spaces n ++ rest) = spaces (m + n) ++ rest := by
  rw [← List.append_assoc, spaces, spaces, List.replicate_append_replicate]
  rfl

theorem padLeft_append (width : Nat) (x rest : Text) :
    padLeft width x ++ rest = spaces (width - x.length) ++ (x ++ rest) :=
  List.append_assoc _ _ _

/-- What fills up a field may as well stand behind the space that follows it. -/
theorem padRight_append (width : Nat) (x rest : Text) :
    padRight width x ++ ' ' :: rest = x ++ ' ' :: (spaces (width - x.length) ++ rest) := by
  have hcomm : spaces (width - x.length) ++ (spaces 1 ++ rest) =
      spaces 1 ++ (spaces (width - x.length) ++ rest) := by
    rw [spaces_append, spaces_append, Nat.add_comm]
  exact (List.append_assoc _ _ _).trans (congrArg (x ++ ·) hcomm)

/-- The fields of a line are parted, however wide they are. -/
theorem exists_spaces (place : Position) (t : Token) : ∃ a b c d, rowLine place t =
    spaces a ++ (decimal place.line ++ ':' :: (spaces 0 ++ (decimal place.column ++ ' ' ::
      (spaces b ++ (decimal t.start ++ '.' :: '.' :: (spaces 0 ++ (decimal t.stop ++ ' ' ::
        (spaces c ++ (t.kind.name.toList ++ ' ' :: (spaces d ++ t.text.quoted)))))))))) := by
  refine ⟨4 - (decimal place.line).length,
    4 - (decimal place.column).length + (6 - (decimal t.start).length),
    6 - (decimal t.stop).length, 12 - t.kind.name.toList.length, ?_⟩
  rw [rowLine, tokenLine, List.dropLast_concat]
  simp only [List.append_assoc, List.cons_append, List.nil_append, padRight_append,
    padLeft_append, spaces_append]
  rfl

/-- A row is read back from its line. -/
theorem readRow?_rowLine (place : Position) (t : Token) :
    readRow? (rowLine place t) = some (.ofToken place t) := by
  obtain ⟨a, b, c, d, he⟩ := exists_spaces place t
  have hname (rest : Text) :
      readField Char.isAlpha (spaces c ++ (t.kind.name.toList ++ ' ' :: rest)) =
        (t.kind.name.toList, ' ' :: rest) :=
    readField_spaces rfl t.kind.name_ne_nil (fun _ => Token.Kind.isAlpha_of_mem_name) rfl c rest
  have hquoted : (' ' :: (spaces d ++ t.text.quoted)).dropWhile (· == ' ') = t.text.quoted := by
    rw [List.dropWhile_cons_of_pos rfl, dropWhile_spaces]
    rfl
  rw [he, readRow?]
  simp only [readNumber_spaces (d := ':') rfl, readNumber_spaces (d := ' ') rfl,
    readNumber_spaces (d := '.') rfl, List.drop_succ_cons, List.drop_zero, hname, hquoted,
    Token.Kind.find?_name, Text.unquoted?_quoted]
  rfl

theorem lineFeed_notMem_rowLine (place : Position) (t : Token) : '\n' ∉ rowLine place t := by
  obtain ⟨a, b, c, d, he⟩ := exists_spaces place t
  have hspaces (count : Nat) : '\n' ∉ spaces count := fun h =>
    absurd (List.eq_of_mem_replicate h) (by decide)
  have hdecimal (n : Nat) : '\n' ∉ decimal n := fun h =>
    absurd (isDigit_of_mem_decimal h) (by decide)
  have hname : '\n' ∉ t.kind.name.toList := fun h =>
    absurd (Token.Kind.isAlpha_of_mem_name h) (by decide)
  rw [he]
  simp only [List.mem_append, List.mem_cons, hspaces, hdecimal, hname,
    Text.lineFeed_notMem_quoted]
  decide

def rowLines (before : Text) (tokens : List Token) : List Text :=
  (Token.placed before tokens).map fun (place, t) => rowLine place t

/-- The report consists of these lines, with a break behind each. -/
theorem tokenReport_text (tokens : List Token) :
    tokenReport tokens .text = (rowLines [] tokens).flatMap (· ++ ['\n']) := by
  have hline (place : Position) (t : Token) : rowLine place t ++ ['\n'] = tokenLine place t := by
    rw [rowLine, tokenLine, List.dropLast_concat]
  rw [tokenReport, rowLines, List.flatMap_map]
  simp only [hline]

/-- Each line gives back the row of its token at the place where the token starts. -/
theorem forall₂_rowLines {script before : Text} {tokens : List Token}
    (h : tokens.map (·.position? script) =
      (Token.placed before tokens).map fun p => some p.1) :
    List.Forall₂ (fun line t => ∃ place, t.position? script = some place ∧
      readRow? line = some (.ofToken place t)) (rowLines before tokens) tokens := by
  induction tokens generalizing before with
  | nil => exact .nil
  | cons t ts ih =>
    obtain ⟨hplace, hrest⟩ := List.cons.inj h
    exact .cons ⟨_, hplace, readRow?_rowLine _ t⟩ (ih hrest)

/-- The rows of all lines show the texts of the tokens. -/
theorem flatMap_readRow? (before : Text) (tokens : List Token) :
    ((rowLines before tokens).filterMap readRow?).flatMap Row.text = tokens.flatMap Token.text := by
  induction tokens generalizing before with
  | nil => rfl
  | cons t ts ih =>
    have hrow := readRow?_rowLine (.after before) t
    have hrest := ih (before ++ t.text)
    rw [rowLines] at hrest ⊢
    rw [Token.placed, List.map_cons, List.filterMap_cons_some hrow, List.flatMap_cons, hrest,
      List.flatMap_cons]
    rfl

/-- A command that writes tokens has read the script and its settings, and scanned the script. -/
theorem writeTokens_eq_ok_iff {parse? : Text → Option Settings.Draft} {files : Files} {o : Options}
    {format : Format} {path : Text} {written : Written} :
    (writeTokens parse? files o format path).result = .ok written ↔
      ∃ script s tokens, files.text path = .ok script ∧
        (o.settings parse? files path script).result = .ok s ∧ scan s script = .ok tokens ∧
          written = ⟨tokens.length, tokenReport tokens format⟩ := by
  simp only [writeTokens, readScript, Logged.result_bind, Logged.ofExcept]
  cases files.text path with
  | error fault => simp [Except.mapError]
  | ok script =>
    cases hs : (o.settings parse? files path script).result with
    | error e => simp [Except.mapError, hs]
    | ok s =>
      cases hscan : scan s script with
      | error e => simp [Except.mapError, pure, Logged.ofExcept, hs, hscan]
      | ok tokens => simp [Except.mapError, pure, Logged.ofExcept, hs, hscan, eq_comm]

/-- The text report of a script has a line for each token, the empty one at its end included, and as
many lines as the command counts. Each line stands for itself: place, bytes, kind and text of the
token are read back from it. The texts that are read back make up the script. -/
theorem token_lines_read_back {parse? : Text → Option Settings.Draft} {files : Files} {o : Options}
    {path : Text} {written : Written}
    (h : (writeTokens parse? files o .text path).result = .ok written) :
    ∃ script s tokens lines, files.text path = .ok script ∧
      (o.settings parse? files path script).result = .ok s ∧ scan s script = .ok tokens ∧
      (∃ front, tokens = front ++ [.eof script.byteSize] ∧ ∀ t ∈ front, t.isEof = false) ∧
      written.output = lines.flatMap (· ++ ['\n']) ∧ (∀ line ∈ lines, '\n' ∉ line) ∧
      written.count = lines.length ∧
      List.Forall₂ (fun line t => ∃ place, t.position? script = some place ∧
        readRow? line = some (.ofToken place t)) lines tokens ∧
      (lines.filterMap readRow?).flatMap Row.text = script := by
  obtain ⟨script, s, tokens, htext, hs, hscan, rfl⟩ := writeTokens_eq_ok_iff.mp h
  obtain ⟨-, hunclosed, htokens⟩ := scan_eq_ok_iff.mp hscan
  obtain ⟨hchain, hread⟩ := TokenStream.chain_read hunclosed
  have hlines := forall₂_rowLines (places_of_scan hscan).1
  refine ⟨script, s, tokens, rowLines [] tokens, htext, hs, hscan, ⟨_, htokens, hchain.isEof⟩,
    tokenReport_text tokens, ?_, hlines.length_eq.symm, hlines, ?_⟩
  · intro line hline
    obtain ⟨⟨place, t⟩, -, rfl⟩ := List.mem_map.mp hline
    exact lineFeed_notMem_rowLine place t
  · rw [TokenStream.text] at hread
    rw [flatMap_readRow?, htokens, List.flatMap_append, hread, List.flatMap_singleton]
    exact List.append_nil script

/-- A literal with a double quote, a line break, a control character and a letter of two bytes. -/
theorem token_lines_read_back_behind_escapes :
    let parse? : Text → Option Settings.Draft := fun _ => none
    let script := "'\"\n\x01é';".toList
    let files : Files := fun _ => .ok (String.ofList script).toUTF8
    let o : Options := ⟨none, none, none, none, none, false⟩
    let output :=
      "   1:1         0..7      QuotedString \"'\\\"\\n\\u\x7b1\x7dé'\"\n" ++
      "   2:4         7..8      Separator    \";\"\n" ++
      "   2:5         8..8      Eof          \"\"\n"
    let written : Written := ⟨3, output.toList⟩
    (writeTokens parse? files o .text ['s']).result = .ok written ∧
      ∃ lines : List Text, written.output = lines.flatMap (· ++ ['\n']) ∧ lines.length = 3 ∧
        (lines.filterMap readRow?).flatMap Row.text = script := by
  intro parse? script files o output written
  have hscript : files.text ['s'] = .ok script := by decide +kernel
  have hwritten : (writeTokens parse? files o .text ['s']).result = .ok written := by decide +kernel
  obtain ⟨read, s, tokens, lines, hread, -, -, -, houtput, -, hcount, -, htexts⟩ :=
    token_lines_read_back hwritten
  obtain rfl : script = read := Except.ok.inj (hscript.symm.trans hread)
  exact ⟨hwritten, lines, houtput, hcount.symm, htexts⟩

end Command
end SqlStatements
