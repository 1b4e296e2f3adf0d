import SqlStatements.Text.Hex

namespace SqlStatements.Yaml

/-- The character that an escape stands for, and the number of characters after the
backslash that it takes. -/
def escape? : Text → Option (Char × Nat)
  | [] => none
  | c :: rest =>
    let code (digits : Nat) : Option (Char × Nat) := do
      return (← Hex.character? (← Hex.number? digits rest), digits + 1)
    match c with
    | '0' => some ('\x00', 1)
    | 'a' => some ('\x07', 1)
    | 'b' => some ('\x08', 1)
    | 't' => some ('\t', 1)
    | '\t' => some ('\t', 1)
    | 'n' => some ('\n', 1)
    | 'v' => some ('\x0b', 1)
    | 'f' => some ('\x0c', 1)
    | 'r' => some ('\r', 1)
    | 'e' => some ('\x1b', 1)
    | ' ' => some (' ', 1)
    | '"' => some ('"', 1)
    | '/' => some ('/', 1)
    | '\\' => some ('\\', 1)
    | 'N' => some ('\u0085', 1)
    | '_' => some ('\u00a0', 1)
    | 'L' => some ('\u2028', 1)
    | 'P' => some ('\u2029', 1)
    | 'x' => code 2
    | 'u' => code 4
    | 'U' => code 8
    | _ => none

end SqlStatements.Yaml
