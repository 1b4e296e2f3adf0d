import SqlStatements.Text.Basic

namespace SqlStatements

/-- The strings that drive the reading of a script, and the name it goes by in messages. -/
structure Settings where
  resource : Text
  separator : Text
  lineComment : Text
  blockOpen : Text
  blockClose : Text
deriving DecidableEq

namespace Settings

inductive Field where
  | resource
  | separator
  | lineComment
  | blockOpen
  | blockClose
deriving DecidableEq

def Field.key : Field → String
  | .resource => "resource"
  | .separator => "separator"
  | .lineComment => "comment_prefix"
  | .blockOpen => "block_comment_start"
  | .blockClose => "block_comment_end"

def Field.all : List Field := [.resource, .separator, .lineComment, .blockOpen, .blockClose]

/-- The fields that must not be empty, in the order in which they are checked. -/
def Field.delimiters : List Field := [.separator, .lineComment, .blockOpen, .blockClose]

def Field.ofKey? (key : Text) : Option Field :=
  Field.all.find? fun field => field.key.toList == key

inductive Error where
  | emptyField (field : Field)
  | uninitializedField (field : Field)
deriving DecidableEq

def Error.message : Error → String
  | .emptyField field => field.key ++ " must not be empty"
  | .uninitializedField field => "Uninitialized field on ScriptConfigBuilder: " ++ field.key

def get (s : Settings) : Field → Text
  | .resource => s.resource
  | .separator => s.separator
  | .lineComment => s.lineComment
  | .blockOpen => s.blockOpen
  | .blockClose => s.blockClose

def set (s : Settings) (field : Field) (value : Text) : Settings :=
  match field with
  | .resource => { s with resource := value }
  | .separator => { s with separator := value }
  | .lineComment => { s with lineComment := value }
  | .blockOpen => { s with blockOpen := value }
  | .blockClose => { s with blockClose := value }

def inlineResource : Text := "<inline script>".toList

/-- The separator `;`, comments after `--` and between `/*` and `*/`. -/
def standard : Settings where
  resource := inlineResource
  separator := [';']
  lineComment := ['-', '-']
  blockOpen := ['/', '*']
  blockClose := ['*', '/']

/-- Refuses the first empty delimiter. -/
def validate (s : Settings) : Except Error Unit :=
  match Field.delimiters.find? fun field => (s.get field).isEmpty with
  | some field => .error (.emptyField field)
  | none => .ok ()

def checked (s : Settings) : Except Error Settings :=
  match s.validate with
  | .error e => .error e
  | .ok () => .ok s

@[simp] theorem get_set_self (s : Settings) (field : Field) (value : Text) :
    (s.set field value).get field = value := by
  cases field <;> rfl

theorem get_set_ne (s : Settings) {f g : Field} (h : g ≠ f) (value : Text) :
    (s.set f value).get g = s.get g := by
  cases f <;> cases g <;> first | rfl | contradiction

/-- Settings are valid exactly when no delimiter is empty. -/
theorem validate_eq_ok_iff {s : Settings} :
    s.validate = .ok () ↔
      s.separator ≠ [] ∧ s.lineComment ≠ [] ∧ s.blockOpen ≠ [] ∧ s.blockClose ≠ [] := by
  cases hs : s.separator <;> cases hl : s.lineComment <;> cases ho : s.blockOpen <;>
    cases hc : s.blockClose <;> simp [validate, Field.delimiters, get, hs, hl, ho, hc]

end Settings
end SqlStatements
