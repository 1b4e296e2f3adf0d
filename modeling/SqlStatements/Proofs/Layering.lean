import SqlStatements.Command.Options
import SqlStatements.Proofs.Drafting
import SqlStatements.Proofs.Failing

namespace SqlStatements

open Settings

theorem Separator.result_resolve {ε : Type} (script separator : Text) :
    (resolve script (some separator) : Logged ε Text).result =
      .ok (if isUsed script separator = false then lineBreak else separator) := by
  rw [resolve, Option.getD_some]
  cases isUsed script separator <;> rfl

/-- Reading a script can fail in the script only. -/
theorem isParseFailure_of_failure? {stream : TokenStream} {settings : Settings} {before : Text}
    {e : Failure} (h : stream.failure? settings before = some e) : e.isParseFailure = true := by
  obtain ⟨why, -, rfl⟩ := Option.map_eq_some_iff.mp h
  cases why <;> rfl

/-- Nothing is held against valid settings. -/
theorem isParseFailure_of_valid {settings : Settings} (h : settings.validate = .ok ())
    {script : Text} {e : Failure}
    (he : (split settings script).result = .error e ∨ scan settings script = .error e) :
    e.isParseFailure = true := by
  rcases he with hsplit | hscan
  · rw [result_split_of_valid h, splitUnchecked_eq_error_iff] at hsplit
    exact isParseFailure_of_failure? hsplit
  · rcases scan_eq_error_iff.mp hscan with ⟨why, hinvalid, -⟩ | ⟨-, hfailure⟩
    · cases h.symm.trans hinvalid
    · exact isParseFailure_of_failure? hfailure

namespace Settings.Draft

theorem get?_set? (d : Draft) (f g : Field) (value : Option Text) :
    (d.set? f value).get? g = if f = g then value.or (d.get? g) else d.get? g := by
  cases value with
  | none => simp [set?]
  | some value =>
    by_cases hf : f = g
    · subst hf
      simp [set?]
    · simp [set?, hf, get?_set_ne d (Ne.symm hf)]

/-- A field that is left out has its usual value, which is not empty. -/
theorem get_filledFrom_eq_nil_iff (d : Draft) {f : Field} (hf : f ∈ Field.delimiters) :
    (d.filledFrom standard).get f = [] ↔ d.get? f = some [] := by
  have hstandard : standard.get f ≠ [] := validate_eq_ok_iff_get.mp rfl f hf
  rw [get_filledFrom]
  cases d.get? f with
  | none => simp [hstandard]
  | some value => simp

end Settings.Draft

namespace Command.Options

def flag? (o : Options) : Field → Option Text
  | .resource => none
  | .separator => o.separator
  | .lineComment => o.lineComment
  | .blockOpen => o.blockOpen
  | .blockClose => o.blockClose

/-- What the settings file sets, if there is one. It must be readable, and on its own it must set no
delimiter to nothing. -/
inductive Filed (o : Options) (parse? : Text → Option Draft) (files : Files) :
    Except Error Draft → Prop where
  | absent : o.settingsFile = none → Filed o parse? files (.ok .empty)
  | unreadable {file : Text} {fault : FileFault} : o.settingsFile = some file →
      files.text file = .error fault → Filed o parse? files (.error (.settingsFile file fault))
  | malformed {file document : Text} : o.settingsFile = some file →
      files.text file = .ok document → parse? document = none →
      Filed o parse? files (.error (.malformedSettings file))
  | invalid {file document : Text} {fields : Draft} {field : Field} :
      o.settingsFile = some file → files.text file = .ok document →
      parse? document = some fields → Field.IsFirst (fields.get? · = some []) field →
      Filed o parse? files (.error (.invalidSettings file (.emptyField field)))
  | valid {file document : Text} {fields : Draft} : o.settingsFile = some file →
      files.text file = .ok document → parse? document = some fields →
      (∀ f ∈ Field.delimiters, fields.get? f ≠ some []) → Filed o parse? files (.ok fields)

/-- The value of a delimiter: that of the options, or else that of the file, or else the usual
one. -/
def layered (o : Options) (fields : Draft) (f : Field) : Text :=
  ((o.flag? f).or (fields.get? f)).getD (standard.get f)

/-- The settings for the script at `path`, with the separator asked for. -/
def stacked (o : Options) (fields : Draft) (path : Text) : Settings where
  resource := path
  separator := o.layered fields .separator
  lineComment := o.layered fields .lineComment
  blockOpen := o.layered fields .blockOpen
  blockClose := o.layered fields .blockClose

/-- The settings for the script at `path`. A fault of the file comes before an empty option, and the
separator gives way to the line break only if that is allowed and the script does not use it. -/
inductive Layers (o : Options) (parse? : Text → Option Draft) (files : Files)
    (path script : Text) : Except Error Settings → Prop where
  | file {e : Error} : o.Filed parse? files (.error e) →
      Layers o parse? files path script (.error e)
  | option {fields : Draft} {field : Field} : o.Filed parse? files (.ok fields) →
      Field.IsFirst (o.flag? · = some []) field →
      Layers o parse? files path script (.error (.invalidDelimiters (.emptyField field)))
  | kept {fields : Draft} : o.Filed parse? files (.ok fields) →
      (∀ f ∈ Field.delimiters, o.flag? f ≠ some []) →
      (o.autoSeparator = true → Separator.isUsed script (o.layered fields .separator) = true) →
      Layers o parse? files path script (.ok (o.stacked fields path))
  | replaced {fields : Draft} : o.Filed parse? files (.ok fields) →
      (∀ f ∈ Field.delimiters, o.flag? f ≠ some []) → o.autoSeparator = true →
      Separator.isUsed script (o.layered fields .separator) = false →
      Layers o parse? files path script
        (.ok ((o.stacked fields path).set .separator Separator.lineBreak))

section File
variable {o : Options} {parse? : Text → Option Draft} {files : Files} {fields : Draft}

theorem readSettings_of_parse {file document : Text} (ht : files.text file = .ok document)
    (hf : parse? document = some fields) :
    readSettings parse? files file =
      (fields.filledFrom standard).checked.mapError (.invalidSettings file) := by
  simp only [readSettings, ht, hf]

/-- The settings below the options are those of the file, filled with the usual ones. -/
theorem Filed.base_eq {r : Except Error Draft} (h : o.Filed parse? files r) :
    o.base parse? files = r.map (Draft.filledFrom · standard) := by
  cases h with
  | absent hnone =>
    rw [base, hnone]
    rfl
  | unreadable hfile ht =>
    simp only [base, hfile, readSettings, ht]
    rfl
  | malformed hfile ht hf =>
    simp only [base, hfile, readSettings, ht, hf]
    rfl
  | @invalid file document fields field hfile ht hf hfirst =>
    have herror : (fields.filledFrom standard).validate = .error (.emptyField field) :=
      validate_eq_error_iff.mpr
        ⟨field, hfirst.congr fun f hf => (fields.get_filledFrom_eq_nil_iff hf).symm, rfl⟩
    simp only [base, hfile, readSettings_of_parse ht hf, checked, herror]
    rfl
  | valid hfile ht hf hfull =>
    have hvalid := validate_eq_ok_iff_get.mpr fun f hd =>
      mt (Draft.get_filledFrom_eq_nil_iff _ hd).mp (hfull f hd)
    simp only [base, hfile, readSettings_of_parse ht hf, checked, hvalid]
    rfl

theorem exists_filed (o : Options) (parse? : Text → Option Draft) (files : Files) :
    ∃ r, o.Filed parse? files r := by
  cases hfile : o.settingsFile with
  | none => exact ⟨_, .absent hfile⟩
  | some file =>
    cases ht : files.text file with
    | error fault => exact ⟨_, .unreadable hfile ht⟩
    | ok document =>
      cases hf : parse? document with
      | none => exact ⟨_, .malformed hfile ht hf⟩
      | some fields =>
        cases hv : (fields.filledFrom standard).validate with
        | error e =>
          obtain ⟨field, hfirst, rfl⟩ := validate_eq_error_iff.mp hv
          have hempty := hfirst.congr fun f hd => fields.get_filledFrom_eq_nil_iff hd
          exact ⟨_, .invalid hfile ht hf hempty⟩
        | ok u =>
          refine ⟨_, .valid hfile ht hf ?_⟩
          intro f hd
          exact mt (fields.get_filledFrom_eq_nil_iff hd).mpr (validate_eq_ok_iff_get.mp hv f hd)

/-- What a file sets leaves no delimiter empty. -/
theorem Filed.get_ne_nil (h : o.Filed parse? files (.ok fields)) {f : Field}
    (hd : f ∈ Field.delimiters) : (fields.filledFrom standard).get f ≠ [] := by
  rw [ne_eq, fields.get_filledFrom_eq_nil_iff hd]
  cases h with
  | absent =>
    intro he
    cases f <;> cases he
  | valid _ _ _ hfull => exact hfull f hd

end File

section Layers
variable {o : Options} {parse? : Text → Option Draft} {files : Files} {path script : Text}
  {fields : Draft}

theorem layered_eq (o : Options) (fields : Draft) (f : Field) :
    o.layered fields f = (o.flag? f).getD ((fields.filledFrom standard).get f) := by
  rw [layered, Draft.get_filledFrom]
  cases o.flag? f <;> rfl

/-- A delimiter of the draft comes from the options, or else from the settings of the file. -/
theorem get?_draft (o : Options) (fields : Draft) (path : Text) {f : Field}
    (hf : f ∈ Field.delimiters) :
    (o.draft (fields.filledFrom standard) path).get? f = some (o.layered fields f) := by
  have hresource : f ≠ .resource := by
    rintro rfl
    exact absurd hf (by decide)
  have hbelow : ((Draft.ofSettings (fields.filledFrom standard)).set .resource path).get? f =
      some ((fields.filledFrom standard).get f) := by
    rw [Draft.get?_set_ne _ hresource, Draft.get?_ofSettings]
  rw [layered_eq]
  cases f with
  | resource => exact absurd rfl hresource
  | _ => simp [draft, Draft.get?_set?, hbelow, flag?]

theorem get_stacked (o : Options) (fields : Draft) (path : Text) {f : Field}
    (hf : f ∈ Field.delimiters) : (o.stacked fields path).get f = o.layered fields f := by
  cases f with
  | resource => exact absurd hf (by decide)
  | _ => rfl

/-- Over a file that leaves no delimiter empty only an option can be the first empty one. -/
theorem Filed.layered_eq_nil_iff (h : o.Filed parse? files (.ok fields)) {f : Field}
    (hf : f ∈ Field.delimiters) : o.layered fields f = [] ↔ o.flag? f = some [] := by
  have hbelow := h.get_ne_nil hf
  rw [layered_eq]
  cases o.flag? f <;> simp [hbelow]

/-- Over the settings of a file the draft is refused for an empty option. -/
theorem Filed.build_draft_of_empty (h : o.Filed parse? files (.ok fields)) (path : Text)
    {field : Field} (hfirst : Field.IsFirst (o.flag? · = some []) field) :
    (o.draft (fields.filledFrom standard) path).build = .error (.emptyField field) := by
  rw [Draft.build_eq_iff]
  apply Outcome.empty
  · intro f hf
    rw [get?_draft o fields path hf]
    exact Option.some_ne_none _
  · apply hfirst.congr
    intro f hf
    rw [get?_draft o fields path hf, Option.some.injEq, h.layered_eq_nil_iff hf]

/-- Otherwise the draft is finished as the layers say. -/
theorem Filed.build_draft (h : o.Filed parse? files (.ok fields)) (path : Text)
    (hflags : ∀ f ∈ Field.delimiters, o.flag? f ≠ some []) :
    (o.draft (fields.filledFrom standard) path).build = .ok (o.stacked fields path) := by
  rw [Draft.build_eq_iff]
  apply Outcome.built
  · intro f hf
    rw [get?_draft o fields path hf, get_stacked o fields path hf, ne_eq, h.layered_eq_nil_iff hf]
    exact ⟨rfl, hflags f hf⟩
  · simp [draft, Draft.get?_set?, stacked]

/-- The draft is finished and then given its separator. -/
theorem result_settings :
    (o.settings parse? files path script).result =
      match o.base parse? files with
      | .error e => .error e
      | .ok base =>
        match (o.draft base path).build with
        | .error e => .error (.invalidDelimiters e)
        | .ok s => .ok
          (if o.autoSeparator = true ∧ Separator.isUsed script s.separator = false then
            s.set .separator Separator.lineBreak
          else s) := by
  simp only [settings, Logged.result_bind, Logged.ofExcept]
  cases o.base parse? files with
  | error e => rfl
  | ok base =>
    dsimp only
    cases (o.draft base path).build with
    | error e => rfl
    | ok s =>
      dsimp only [Except.mapError]
      cases o.autoSeparator with
      | false => rfl
      | true =>
        simp only [if_true, Logged.result_bind, Separator.result_resolve, true_and]
        -- The separator may be the line break already, and then no record is made of the change.
        cases Separator.isUsed script s.separator with
        | true => simp [pure, Logged.ofExcept, Settings.set]
        | false => by_cases hs : Separator.lineBreak = s.separator <;> simp [hs] <;> rfl

/-- The settings are the ones that the layers give. -/
theorem Layers.result_eq {r : Except Error Settings} (h : o.Layers parse? files path script r) :
    (o.settings parse? files path script).result = r := by
  rw [result_settings]
  cases h with
  | file hfile =>
    rw [hfile.base_eq]
    rfl
  | option hfile hfirst =>
    rw [hfile.base_eq]
    simp only [Except.map, hfile.build_draft_of_empty path hfirst]
  | kept hfile hflags hused =>
    rw [hfile.base_eq]
    simp only [Except.map, hfile.build_draft path hflags]
    rw [if_neg]
    rintro ⟨hauto, hunused⟩
    exact absurd ((hused hauto).symm.trans hunused) (by decide)
  | replaced hfile hflags hauto hunused =>
    rw [hfile.base_eq]
    simp only [Except.map, hfile.build_draft path hflags]
    rw [if_pos ⟨hauto, hunused⟩]

theorem exists_layers (o : Options) (parse? : Text → Option Draft) (files : Files)
    (path script : Text) :
    ∃ r, o.Layers parse? files path script r := by
  obtain ⟨r, hfile⟩ := o.exists_filed parse? files
  cases r with
  | error e => exact ⟨_, .file hfile⟩
  | ok fields =>
    cases hfind : Field.delimiters.find? fun f => decide (o.flag? f = some []) with
    | some field =>
      have hfirst := (Field.find?_delimiters_iff fun _ => decide_eq_true_iff).mp hfind
      exact ⟨_, .option hfile hfirst⟩
    | none =>
      have hflags : ∀ f ∈ Field.delimiters, o.flag? f ≠ some [] := by simpa using hfind
      by_cases h : o.autoSeparator = true ∧
          Separator.isUsed script (o.layered fields .separator) = false
      · exact ⟨_, .replaced hfile hflags h.1 h.2⟩
      · exact ⟨_, .kept hfile hflags (by simpa using h)⟩

/-- The layers give settings without an empty delimiter. -/
theorem Layers.validate {s : Settings} (h : o.Layers parse? files path script (.ok s)) :
    s.validate = .ok () := by
  have hstacked {fields : Draft} (hfile : o.Filed parse? files (.ok fields))
      (hflags : ∀ f ∈ Field.delimiters, o.flag? f ≠ some []) {f : Field}
      (hf : f ∈ Field.delimiters) : (o.stacked fields path).get f ≠ [] := by
    rw [get_stacked o fields path hf, ne_eq, hfile.layered_eq_nil_iff hf]
    exact hflags f hf
  rw [validate_eq_ok_iff_get]
  intro f hf
  cases h with
  | kept hfile hflags => exact hstacked hfile hflags hf
  | replaced hfile hflags =>
    by_cases hsep : f = .separator
    · subst hsep
      rw [get_set_self]
      exact List.cons_ne_nil _ _
    · rw [get_set_ne _ hsep]
      exact hstacked hfile hflags hf

/-- A command has the settings that the layers give, or their error. These settings are valid, so
that neither splitting nor scanning can fail for them. -/
theorem settings_come_in_layers (o : Options) (parse? : Text → Option Draft) (files : Files)
    (path script : Text) :
    (∀ r, (o.settings parse? files path script).result = r ↔ o.Layers parse? files path script r) ∧
      ∀ s, (o.settings parse? files path script).result = .ok s → s.validate = .ok () ∧
        ∀ text why, (split s text).result ≠ .error (.settings why) ∧
          scan s text ≠ .error (.settings why) := by
  have hiff (r : Except Error Settings) :
      (o.settings parse? files path script).result = r ↔ o.Layers parse? files path script r := by
    refine ⟨?_, Layers.result_eq⟩
    rintro rfl
    obtain ⟨r, hr⟩ := o.exists_layers parse? files path script
    rwa [hr.result_eq]
  refine ⟨hiff, ?_⟩
  intro s hs
  have hvalid := ((hiff _).mp hs).validate
  refine ⟨hvalid, ?_⟩
  intro text why
  constructor
  · intro he
    cases isParseFailure_of_valid hvalid (.inl he)
  · intro he
    cases isParseFailure_of_valid hvalid (.inr he)

/-- An option comes before the comments of one file, but does not mend the empty separator of
another one. -/
theorem settings_come_in_layers_over_files :
    let mended := "separator: GO\ncomment_prefix: '#'\nresource: f\n"
    let broken := "separator: ''\n"
    let parse? : Text → Option Draft := fun document =>
      if document = mended.toList then some ⟨some ['f'], some ['G', 'O'], some ['#'], none, none⟩
      else if document = broken.toList then some ⟨none, some [], none, none, none⟩
      else none
    let files : Files := fun path => .ok (if path = ['e'] then broken else mended).toUTF8
    let o : Options := ⟨some ['f'], none, some ['-'], none, none, true⟩
    let s : Settings := ⟨['p'], ['\n'], ['-'], ['/', '*'], ['*', '/']⟩
    o.Layers parse? files ['p'] "a\n".toList (.ok s) ∧ s.validate = .ok () ∧
      { o with settingsFile := some ['e'], separator := some [';'] }.Layers parse? files ['p'] []
        (.error (.invalidSettings ['e'] (.emptyField .separator))) := by
  intro mended broken parse? files o s
  have hs : (o.settings parse? files ['p'] "a\n".toList).result = .ok s := by decide +kernel
  obtain ⟨hlayers, hvalid⟩ := settings_come_in_layers o parse? files ['p'] "a\n".toList
  refine ⟨(hlayers _).mp hs, (hvalid s hs).1, ?_⟩
  exact ((settings_come_in_layers _ parse? files ['p'] []).1 _).mp (by decide +kernel)

end Layers

end Command.Options
end SqlStatements
