import SqlStatements.Text.Hex

namespace SqlStatements

/-- A part of a string: a character, or an escaped unit of UTF-16. -/
inductive Json.Piece where
  | char (c : Char)
  | unit (code : Nat)
deriving DecidableEq

inductive Json where
  | null
  | bool (value : Bool)
  | number (digits : Text)
  | string (pieces : List Json.Piece)
  | array (items : List Json)
  | object (members : List (List Json.Piece × Json))

namespace Json

def ofText (t : Text) : Json := .string (t.map .char)

def key (name : String) : List Piece := name.toList.map .char

def ofNat (n : Nat) : Json := .number (Nat.toDigits 10 n)

def isHighUnit (code : Nat) : Bool := 0xD800 ≤ code && code ≤ 0xDBFF

def isLowUnit (code : Nat) : Bool := 0xDC00 ≤ code && code ≤ 0xDFFF

/-- The text of a string. There is none when a unit of a surrogate pair stands alone. -/
def Piece.text? : List Piece → Option Text
  | [] => some []
  | .char c :: rest => (text? rest).map (c :: ·)
  | .unit high :: .unit low :: rest =>
    if isHighUnit high && isLowUnit low then
      (text? rest).map (Char.ofNat (0x10000 + (high - 0xD800) * 0x400 + (low - 0xDC00)) :: ·)
    else do return (← Hex.character? high) :: (← text? (.unit low :: rest))
  | .unit code :: rest => do return (← Hex.character? code) :: (← text? rest)

end Json
end SqlStatements
