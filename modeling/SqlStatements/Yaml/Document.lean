import SqlStatements.Yaml.Stream
import SqlStatements.Yaml.Tree

namespace SqlStatements.Yaml

/-- What follows the first document is no second one. After a line that ends the document
nothing may follow that can be read, and elsewhere only the start of a document is refused. -/
def isTail : List Token → Bool
  | [] => false
  | .documentEnd :: rest => (rest.dropWhile (· == .documentEnd)).head?.all (· == .streamEnd)
  | t :: _ => t != .documentStart

/-- The root of the only document. Every node takes at least one token, and so does every
level, which is entered in at most five steps. -/
def parse? (document : Text) : Option Node := do
  let written := (tokens document).dropWhile (· == .documentEnd)
  let body := if written.head? = some .documentStart then written.tail else written
  let (root, left) ← (node .block (5 * body.length + 5)).run ⟨body, []⟩
  if isTail left.tokens then some root else none

end SqlStatements.Yaml
