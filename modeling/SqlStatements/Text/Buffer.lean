import SqlStatements.Text.Basic

namespace SqlStatements

/-- Text that grows at its end. The last character stands first, so that growing takes
no more steps than there are characters to add. -/
structure Buffer where
  reversed : Text
deriving DecidableEq

namespace Buffer

def empty : Buffer := ⟨[]⟩

def text (b : Buffer) : Text := b.reversed.reverse

def push (b : Buffer) (t : Text) : Buffer := ⟨t.reverse ++ b.reversed⟩

def isEmpty (b : Buffer) : Bool := b.reversed.isEmpty

def last? (b : Buffer) : Option Char := b.reversed.head?

@[simp] theorem text_empty : empty.text = [] := rfl

@[simp] theorem text_push (b : Buffer) (t : Text) : (b.push t).text = b.text ++ t := by
  simp [text, push]

@[simp] theorem last?_eq (b : Buffer) : b.last? = b.text.getLast? := by
  simp [last?, text]

@[simp] theorem isEmpty_eq (b : Buffer) : b.isEmpty = b.text.isEmpty := by
  simp [isEmpty, text]

/-- Buffers with the same text are the same. -/
theorem ext_text {a b : Buffer} (h : a.text = b.text) : a = b := by
  obtain ⟨s⟩ := a
  obtain ⟨t⟩ := b
  exact congrArg Buffer.mk (List.reverse_inj.mp h)

@[simp] theorem push_nil (b : Buffer) : b.push [] = b := rfl

@[simp] theorem push_push (b : Buffer) (s t : Text) : (b.push s).push t = b.push (s ++ t) := by
  apply ext_text
  simp

end Buffer
end SqlStatements
