namespace SqlStatements

/-- Script text, one element per character. -/
abbrev Text := List Char

namespace Text

def byteSize : Text → Nat
  | [] => 0
  | c :: cs => c.utf8Size + byteSize cs

def utf8 (t : Text) : List UInt8 := t.flatMap String.utf8EncodeChar

def indexOf? (wanted : Text) : Text → Option Nat
  | [] => if wanted.isEmpty then some 0 else none
  | c :: cs =>
    if wanted.isPrefixOf (c :: cs) then some 0 else (indexOf? wanted cs).map (· + 1)

/-- The leading part of `size` bytes, or the whole text if it is shorter. There is
none when the cut would fall inside a character. -/
def takeBytes? : Text → Nat → Option Text
  | [], _ => some []
  | c :: cs, size =>
    if size = 0 then some []
    else if c.utf8Size ≤ size then (takeBytes? cs (size - c.utf8Size)).map (c :: ·)
    else none

/-- Equality that lets ASCII letters differ in case. -/
def sameWord (s t : Text) : Bool := s.map Char.toLower == t.map Char.toLower

@[simp] theorem byteSize_nil : byteSize [] = 0 := rfl

@[simp] theorem byteSize_cons (c : Char) (t : Text) :
    byteSize (c :: t) = c.utf8Size + byteSize t := rfl

@[simp] theorem byteSize_append (s t : Text) : byteSize (s ++ t) = byteSize s + byteSize t := by
  induction s with
  | nil => simp
  | cons c s ih => rw [List.cons_append, byteSize_cons, byteSize_cons, ih, Nat.add_assoc]

/-- The byte count is the length of the bytes. -/
theorem length_utf8 (t : Text) : t.utf8.length = t.byteSize := by
  induction t with
  | nil => rfl
  | cons c t ih =>
    simp only [utf8, List.flatMap_cons, List.length_append, String.length_utf8EncodeChar,
      byteSize_cons] at ih ⊢
    rw [ih]

end Text
end SqlStatements
