import SqlStatements.Settings.Basic

namespace SqlStatements.Settings

/-- Settings under construction: a field is unset until it is given a value. -/
structure Draft where
  resource : Option Text
  separator : Option Text
  lineComment : Option Text
  blockOpen : Option Text
  blockClose : Option Text
deriving DecidableEq

namespace Draft

def empty : Draft := ⟨none, none, none, none, none⟩

def ofSettings (s : Settings) : Draft :=
  ⟨some s.resource, some s.separator, some s.lineComment, some s.blockOpen, some s.blockClose⟩

def get? (d : Draft) : Field → Option Text
  | .resource => d.resource
  | .separator => d.separator
  | .lineComment => d.lineComment
  | .blockOpen => d.blockOpen
  | .blockClose => d.blockClose

def set (d : Draft) (field : Field) (value : Text) : Draft :=
  match field with
  | .resource => { d with resource := some value }
  | .separator => { d with separator := some value }
  | .lineComment => { d with lineComment := some value }
  | .blockOpen => { d with blockOpen := some value }
  | .blockClose => { d with blockClose := some value }

def set? (d : Draft) (field : Field) : Option Text → Draft
  | none => d
  | some value => d.set field value

/-- Settings that take what is set here and the rest from `base`. -/
def filledFrom (d : Draft) (base : Settings) : Settings where
  resource := d.resource.getD base.resource
  separator := d.separator.getD base.separator
  lineComment := d.lineComment.getD base.lineComment
  blockOpen := d.blockOpen.getD base.blockOpen
  blockClose := d.blockClose.getD base.blockClose

/-- The finished settings: every delimiter must be set, and then none may be empty.
Only the resource has a value of its own. -/
def build (d : Draft) : Except Error Settings :=
  match Field.delimiters.find? fun field => (d.get? field).isNone with
  | some field => .error (.uninitializedField field)
  | none => (d.filledFrom standard).checked

inductive Edit where
  | restart
  | copy (s : Settings)
  | set (field : Field) (value : Text)

def apply (d : Draft) : Edit → Draft
  | .restart => empty
  | .copy s => ofSettings s
  | .set field value => d.set field value

@[simp] theorem get?_set_self (d : Draft) (field : Field) (value : Text) :
    (d.set field value).get? field = some value := by
  cases field <;> rfl

theorem get?_set_ne (d : Draft) {f g : Field} (h : g ≠ f) (value : Text) :
    (d.set f value).get? g = d.get? g := by
  cases f <;> cases g <;> first | rfl | contradiction

@[simp] theorem get?_ofSettings (s : Settings) (field : Field) :
    (ofSettings s).get? field = some (s.get field) := by
  cases field <;> rfl

end Draft
end SqlStatements.Settings
