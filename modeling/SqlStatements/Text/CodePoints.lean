namespace SqlStatements

/-- A set of characters as inclusive ranges of code points. -/
abbrev CodePoints := List (Nat × Nat)

namespace CodePoints

def contains (table : CodePoints) (c : Char) : Bool :=
  table.any fun range => range.1 ≤ c.toNat && c.toNat ≤ range.2

end CodePoints
end SqlStatements
