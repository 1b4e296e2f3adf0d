import SqlStatements.Yaml.Layout

namespace SqlStatements.Yaml

namespace Layout

def mark? (l : Layout) (t : Token) : Option Layout := do
  let l ← (l.leave 0).forget?
  let behind := l.reader.skip 3
  if t = .documentEnd ∧ ¬ behind.skipRest?.any Reader.atLineEnd then none
  else some (((l.goTo behind).allowKey false).push t)

/-- The sign that opens a flow collection. The collection may be a key. -/
def openFlow? (l : Layout) (t : Token) : Option Layout := do
  let l := l.propose.enterValue
  let behind ← (l.reader.skip 1).skipRest?
  some ({ l.goTo behind with
    candidate := none
    outer := l.candidate :: l.outer
    keyAllowed := true }.push t)

def closeFlow? (l : Layout) (t : Token) : Option Layout := do
  let l ← l.forget?
  let behind ← (l.reader.skip 1).skipRest?
  let l := (l.goTo behind).allowKey false
  match l.outer with
  | [] => some (l.push t)
  | candidate :: outer =>
    some ({ l with
      candidate := candidate
      outer := outer
      adjacent := if outer.isEmpty then l.adjacent else behind.index }.push t)

def comma? (l : Layout) : Option Layout := do
  let l ← l.forget?
  let behind ← (l.reader.skip 1).skipRest?
  some (((l.goTo behind).allowKey true).push .comma)

/-- A dash before an entry of a block sequence. Spaces alone indent what follows it. -/
def item? (l : Layout) : Option Layout := do
  let dash := l.reader
  let behind ← (dash.skip 1).skipRest?
  let tab := ((dash.rest.drop 1).takeWhile isSpace).contains '\t'
  let another := behind.peek == some '-' && isGap (behind.rest.drop 1)
  if l.inFlow ∨ ¬ l.keyAllowed ∨ tab ∧ another then none
  else
    let l := (l.enterBlock dash.column l.tokens.length .blockSequence).goTo behind
    let l := if behind.peek.any fun c => isLineBreak c || isFlowSign c then l.enterValue else l
    return ((← l.forget?).allowKey true).push .item

def key? (l : Layout) : Option Layout := do
  let r := l.reader
  let behind := (r.skip 1).skipSpaces
  if ¬ l.inFlow ∧ ¬ l.keyAllowed ∨ behind.peek = some '\t' ∨ (r.skip 1).atEnd then none
  else
    let l ← (l.enterBlock r.column l.tokens.length .blockMapping).forget?
    some (((l.goTo behind).allowKey (!l.inFlow)).push .key)

/-- A colon before a value. The key starts at the candidate, if there is one, and else a
question mark or nothing stands for it. A tab does not divide the colon from a word. -/
def value? (l : Layout) : Option Layout := do
  let colon := l.reader
  let blanks := (colon.rest.drop 1).takeWhile isSpace
  let tab := blanks.head? == some '\t'
  let behind ← if tab then (colon.skip 1).skipRest? else some (colon.skip 1)
  let word := behind.peek.any fun c => c.isAlphanum || c == '-' || c == '_'
  if tab ∧ ¬ blanks.contains ' ' ∧ word then none
  else
    let l := l.goTo behind
    match l.candidate with
    | some c =>
      let l := (l.insert c.position .key).enterBlock c.column c.position .blockMapping
      some (({ l.enterValue with candidate := none }.allowKey false).push .value)
    | none =>
      if l.inFlow then some ((l.allowKey false).push .value)
      else if l.keyAllowed then
        let l := (l.enterBlock colon.column l.tokens.length .blockMapping).enterValue
        some ((l.allowKey true).push .value)
      else none

def name? (l : Layout) (make : Text → Token) : Option Layout :=
  let r := l.reader
  let name := (r.rest.drop 1).takeWhile fun c => !(isGap [c] || isFlowSign c || c == '\ufeff')
  if name.isEmpty then none
  else some (((l.propose.goTo (r.skip (name.length + 1))).allowKey false).push (make name))

def isTagChar (c : Char) : Bool :=
  c.isAlphanum || ("-_#;/?:@&=+$.~*()".toList.contains c) || c == '\x27'

/-- A tag, which starts with one exclamation mark, or with two for one that is known. -/
def tag? (l : Layout) : Option Layout :=
  let r := l.reader
  let known := r.rest.tail.head? = some '!'
  let sign : Text := if known then ['!', '!'] else ['!']
  let name := (r.rest.drop sign.length).takeWhile isTagChar
  let behind := r.skip (sign.length + name.length)
  let ends := isGap behind.rest || l.inFlow && behind.peek.any isFlowSign
  if known ∧ name.isEmpty ∨ ¬ ends then none
  else some (((l.propose.goTo behind).allowKey false).push (.tag (sign ++ name)))

/-- A plain scalar. One that ends with its line lets a key start on the next. -/
def plain? (l : Layout) : Option Layout := do
  let l := l.propose.leaveValues
  if l.inFlow ∧ l.reader.column < l.margin then none
  else
    let (text, behind) ← l.reader.plain? l.inFlow l.margin
    if text.isEmpty then none
    else some (((l.goTo behind).allowKey behind.fresh).push (.scalar true text))

/-- A quoted scalar. Only its line may end after it, or a key or an entry of a flow
collection. -/
def quoted? (l : Layout) (quote : Char) : Option Layout := do
  let l := l.propose.allowKey false
  let (text, behind) ← (l.reader.skip 1).quoted? quote l.margin
  let behind ← behind.skipRest?
  let ends :=
    match behind.peek with
    | none => true
    | some ':' => l.inFlow || behind.line == l.reader.line
    | some c => isLineBreak c || l.inFlow && [',', ']', '\x7d'].contains c
  if ends then
    let l ← (l.goTo behind).skipGap?
    some ({ l with adjacent := l.reader.index }.push (.scalar false text))
  else none

def block? (l : Layout) (folded : Bool) : Option Layout := do
  let l := (l.propose.allowKey true).leaveValues
  let (text, behind) ← (l.reader.skip 1).block? folded l.margin
  some ((l.goTo behind).push (.scalar false text))

/-- The value after a colon in a flow collection that no blank follows. -/
def flowValue? (l : Layout) (rest : Text) : Option Layout :=
  if l.reader.index = l.adjacent then l.value?
  else
    match rest.head? with
    | some '[' => none
    | some '\x7b' => none
    | some c => if isFlowSign c then l.value? else l.plain?
    | none => l.plain?

def read? (l : Layout) : Option Layout :=
  match l.reader.rest with
  | [] => none
  | c :: rest =>
    if l.reader.column = 0 ∧ l.reader.atMark then
      l.mark? (if c = '-' then .documentStart else .documentEnd)
    else if l.reader.column + 1 < l.margin then none
    else
      match c with
      | '[' => l.openFlow? .flowSequence
      | ']' => l.closeFlow? .flowSequenceEnd
      | '\x7b' => l.openFlow? .flowMapping
      | '\x7d' => l.closeFlow? .flowMappingEnd
      | ',' => l.comma?
      | '-' => if isGap rest then l.item? else l.plain?
      | '?' => if isGap rest then l.key? else l.plain?
      | ':' =>
        if isGap rest then l.value? else if l.inFlow then l.flowValue? rest else l.plain?
      | '&' => l.name? .anchor
      | '*' => l.name? .reference
      | '!' => l.tag?
      | '|' => if l.inFlow then l.plain? else l.block? false
      | '>' => if l.inFlow then l.plain? else l.block? true
      | '"' => l.quoted? '"'
      | '\x27' => l.quoted? '\x27'
      | '%' => none
      | '@' => none
      | '\x60' => none
      | _ => l.plain?

def finish? (l : Layout) : Option Layout :=
  if (l.candidate :: l.outer).any (·.any Candidate.required) then none
  else some ((l.leave 0).push .streamEnd)

/-- The tokens that a candidate cannot change any more. -/
def certain (l : Layout) : List Token :=
  let positions := (l.candidate :: l.outer).filterMap fun c => c.map Candidate.position
  l.tokens.reverse.take (positions.foldl min l.tokens.length)

/-- All tokens of the document. Those before a mistake count as far as they are certain
before the mistake is read, and then the end of the stream is missing. -/
def tokensToEnd (l : Layout) : List Token :=
  match l.next? with
  | none => l.certain
  | some here =>
    if here.reader.atEnd then (here.finish?.map fun l => l.tokens.reverse).getD l.certain
    else
      match here.read?.bind settle? with
      | none => l.certain
      | some next =>
        if next.reader.rest.length < l.reader.rest.length then next.tokensToEnd else l.certain
termination_by l.reader.rest.length

end Layout

def tokens (document : Text) : List Token := (Layout.start document).tokensToEnd

end SqlStatements.Yaml
