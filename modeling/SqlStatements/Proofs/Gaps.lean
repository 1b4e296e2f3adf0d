import SqlStatements.Proofs.Resplitting

namespace SqlStatements

namespace Rendering
open Token

variable {last : Option Token} {blanks ts run ws : List Token} {u v : Token}

theorem statements_eq (ts : List Token) :
    statements ts = (ts.splitOnP (·.kind == .separator)).flatMap (Text.kept ∘ segment) := by
  rw [statements]
  induction ts.splitOnP (·.kind == .separator) with
  | nil => rfl
  | cons seg segs ih =>
    rw [List.map_cons, ← List.singleton_append, List.filter_append, ih, List.flatMap_cons]
    rfl

end Rendering

open Rendering

end SqlStatements
