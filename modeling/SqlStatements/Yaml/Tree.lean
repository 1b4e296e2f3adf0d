import SqlStatements.Yaml.Node
import SqlStatements.Yaml.Token

namespace SqlStatements.Yaml

/-- The tokens that are left, and the nodes that have a name. -/
structure Supply where
  tokens : List Token
  named : List (Text × Node)

abbrev Reading := StateT Supply Option

namespace Supply

/-- The next token. There is none only where the document has a mistake. -/
def peek : Reading Token := do
  match (← get).tokens with
  | t :: _ => return t
  | [] => failure

def drop : Reading Unit := modify fun s => { s with tokens := s.tokens.tail }

def take (t : Token) : Reading Bool := do
  if (← peek) = t then
    drop
    return true
  else return false

def lookup (name : Text) : Reading Node := do
  match (← get).named.lookup name with
  | some node => return node
  | none => failure

def name (anchor : Option Text) (node : Node) : Reading Node := do
  match anchor with
  | some name => modify fun s => { s with named := (name, node) :: s.named }
  | none => pure ()
  return node

def anchor? : Reading (Option Text) := do
  match ← peek with
  | .anchor name =>
    drop
    return some name
  | _ => return none

def tag? : Reading (Option Text) := do
  match ← peek with
  | .tag name =>
    drop
    return some name
  | _ => return none

def properties : Reading (Option Text × Option Text) := do
  let anchor ← anchor?
  let tag ← tag?
  match anchor with
  | some _ => return (anchor, tag)
  | none => return (← anchor?, tag)

end Supply

/-- Where a node stands. A sequence that is the value of an entry needs no indentation. -/
inductive Place where
  | flow
  | block
  | entry
deriving DecidableEq

def omitted (tag : Option Text) (mayBeEmpty : Bool) : Reading Node :=
  if mayBeEmpty then return .scalar tag true [] else failure

mutual

/-- The next node. The fuel bounds the nesting and the number of items. -/
def node (p : Place) : Nat → Reading Node
  | 0 => failure
  | fuel + 1 => do
    match ← Supply.peek with
    | .reference name =>
      Supply.drop
      Supply.lookup name
    | _ =>
      let (anchor, tag) ← Supply.properties
      Supply.name anchor (← content p tag (anchor.isSome || tag.isSome) fuel)

/-- A node without its anchor and tag. With one of them it may be empty. -/
def content (p : Place) (tag : Option Text) (mayBeEmpty : Bool) : Nat → Reading Node
  | 0 => failure
  | fuel + 1 => do
    match ← Supply.peek with
    | .scalar isPlain text =>
      Supply.drop
      return .scalar tag isPlain text
    | .flowSequence =>
      Supply.drop
      return .sequence (← flowItems true fuel)
    | .flowMapping =>
      Supply.drop
      liftM (Node.ofEntries? (← flowEntries true fuel))
    | .blockSequence =>
      if p = .flow then omitted tag mayBeEmpty
      else
        Supply.drop
        return .sequence (← blockItems fuel)
    | .blockMapping =>
      if p = .flow then omitted tag mayBeEmpty
      else
        Supply.drop
        liftM (Node.ofEntries? (← blockEntries fuel))
    | .item =>
      if p = .entry then return .sequence (← bareItems fuel) else omitted tag mayBeEmpty
    | _ => omitted tag mayBeEmpty

def nodeUnless (p : Place) (stops : List Token) : Nat → Reading Node
  | 0 => failure
  | fuel + 1 => do
    if stops.contains (← Supply.peek) then return Node.missing else node p fuel

def blockItems : Nat → Reading (List Node)
  | 0 => failure
  | fuel + 1 => do
    if ← Supply.take .blockEnd then return []
    else if ← Supply.take .item then
      let first ← nodeUnless .block [.item, .blockEnd] fuel
      return first :: (← blockItems fuel)
    else failure

/-- The items of a sequence that is not indented. -/
def bareItems : Nat → Reading (List Node)
  | 0 => failure
  | fuel + 1 => do
    if ← Supply.take .item then
      let first ← nodeUnless .block [.item, .key, .value, .blockEnd] fuel
      return first :: (← bareItems fuel)
    else return []

def blockEntries : Nat → Reading (List (Node × Node))
  | 0 => failure
  | fuel + 1 => do
    if ← Supply.take .blockEnd then return []
    else
      let stops := [.key, .value, .blockEnd]
      let hasKey ← Supply.take .key
      if !hasKey && (← Supply.peek) != .value then failure
      else
        let key ← if hasKey then nodeUnless .entry stops fuel else pure Node.missing
        let hasValue ← Supply.take .value
        let value ← if hasValue then nodeUnless .entry stops fuel else pure Node.missing
        return (key, value) :: (← blockEntries fuel)

/-- An entry of a flow collection, after its key token if it has one. -/
def flowEntry (hasKey : Bool) (stop : Token) : Nat → Reading (Node × Node)
  | 0 => failure
  | fuel + 1 => do
    let key ←
      if hasKey then nodeUnless .flow [.value, .comma, stop] fuel
      else nodeUnless .flow [.value] fuel
    let hasValue ← Supply.take .value
    let value ← if hasValue then nodeUnless .flow [.comma, stop] fuel else pure Node.missing
    return (key, value)

/-- The items of a flow sequence and its end. An entry alone stands for a mapping. -/
def flowItems (first : Bool) : Nat → Reading (List Node)
  | 0 => failure
  | fuel + 1 => do
    if ← Supply.take .flowSequenceEnd then return []
    else if !(← if first then pure true else Supply.take .comma) then failure
    else if ← Supply.take .flowSequenceEnd then return []
    else
      let hasKey ← Supply.take .key
      let item ←
        if hasKey || (← Supply.peek) = .value then
          let entry ← flowEntry hasKey .flowSequenceEnd fuel
          liftM (Node.ofEntries? [entry])
        else node .flow fuel
      return item :: (← flowItems false fuel)

def flowEntries (first : Bool) : Nat → Reading (List (Node × Node))
  | 0 => failure
  | fuel + 1 => do
    if ← Supply.take .flowMappingEnd then return []
    else if !(← if first then pure true else Supply.take .comma) then failure
    else if ← Supply.take .flowMappingEnd then return []
    else
      let entry ← flowEntry (← Supply.take .key) .flowMappingEnd fuel
      return entry :: (← flowEntries false fuel)

end

end SqlStatements.Yaml
