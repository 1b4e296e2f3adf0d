import SqlStatements.Failure
import SqlStatements.Token.Classify

namespace SqlStatements

/-- The tokens of a text up to its end, or up to an opener that is never closed. -/
structure TokenStream where
  tokens : List Token
  unclosed : Option Lexeme.Unclosed
deriving DecidableEq

namespace TokenStream

/-- The tokens of `rest`, which starts at byte `start` of the script. -/
def read (s : Settings) (start : Nat) (rest : Text) : TokenStream :=
  match rest with
  | [] => ⟨[], none⟩
  | c :: cs =>
    match _h : Token.classify s (c :: cs) with
    | .error why => ⟨[], some why⟩
    | .ok (kind, n) =>
      let token : Token := ⟨kind, (c :: cs).take n, start⟩
      let later := read s token.stop ((c :: cs).drop n)
      ⟨token :: later.tokens, later.unclosed⟩
termination_by rest.length
decreasing_by
  have := Token.fits_classify (List.cons_ne_nil c cs) _h
  simp only [List.length_drop]
  unfold Lexeme.Fits at this
  omega

def text (stream : TokenStream) : Text := stream.tokens.flatMap Token.text

def failure? (s : Settings) (before : Text) (stream : TokenStream) : Option Failure :=
  stream.unclosed.map fun why => .unclosed s (.after (before ++ stream.text)) why

end TokenStream

/-- The tokens of a script, the empty one at the end included. -/
def scan (settings : Settings) (script : Text) : Except Failure (List Token) :=
  match settings.validate with
  | .error e => .error (.settings e)
  | .ok () =>
    let stream := TokenStream.read settings 0 script
    match stream.failure? settings [] with
    | some e => .error e
    | none => .ok (stream.tokens ++ [.eof script.byteSize])

end SqlStatements
