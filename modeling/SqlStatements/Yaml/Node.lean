import SqlStatements.Text.Basic

namespace SqlStatements.Yaml

/-- A value of a document. A scalar may have a tag, and stays text. -/
inductive Node where
  | scalar (tag : Option Text) (isPlain : Bool) (text : Text)
  | sequence (items : List Node)
  | mapping (entries : List (Node × Node))

namespace Node

def missing : Node := .scalar none true ['~']

def text? : Node → Option Text
  | .scalar _ _ text => some text
  | _ => none

/-- The key whose value lends its entries to the mapping. -/
def isMerge : Node → Bool
  | .scalar none true text => text == ['<', '<']
  | _ => false

/-- A plain scalar that stands for nothing. -/
def isNull : Node → Bool
  | .scalar none true text =>
    [[], ['~'], "null".toList, "Null".toList, "NULL".toList].contains text
  | _ => false

/-- The entries that a mapping, or a value in place of one, lends. -/
def lent? (n : Node) : Option (List (Node × Node)) :=
  match n with
  | .mapping entries => some entries
  | n => if n.isNull then some [] else none

def allLent? : Node → Option (List (Node × Node))
  | .sequence items => (items.mapM lent?).map List.flatten
  | n => n.lent?

/-- The entries with one more, unless its key is among them. -/
def addLent (entries : List (Node × Node)) (entry : Node × Node) : List (Node × Node) :=
  if entries.any fun e => e.1.text?.isSome && e.1.text? == entry.1.text? then entries
  else entries ++ [entry]

/-- The mapping with the entries that are written and those that are lent to it. No key
may be written twice. -/
def ofEntries? (written : List (Node × Node)) : Option Node := do
  let own := written.filter fun e => !e.1.isMerge
  if (own.filterMap fun e => e.1.text?).Nodup then
    let lent ← (written.filter fun e => e.1.isMerge).mapM fun e => e.2.allLent?
    some (.mapping (lent.flatten.foldl addLent own))
  else none

end Node

end SqlStatements.Yaml
