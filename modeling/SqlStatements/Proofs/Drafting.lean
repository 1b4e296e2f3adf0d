import Mathlib.Data.List.Induction
import SqlStatements.Settings.Draft

namespace SqlStatements.Settings

/-- The first delimiter that has the property, in the order in which the delimiters are checked. -/
def Field.IsFirst (p : Field → Prop) (field : Field) : Prop :=
  ∃ before after, delimiters = before ++ field :: after ∧ p field ∧ ∀ f ∈ before, ¬ p f

/-- What fields with these values are built into. A delimiter without a value is reported before an
empty one, and only the resource has a value of its own. -/
inductive Outcome (value? : Field → Option Text) : Except Error Settings → Prop where
  | uninitialized {field : Field} : Field.IsFirst (value? · = none) field →
      Outcome value? (.error (.uninitializedField field))
  | empty {field : Field} : (∀ f ∈ Field.delimiters, value? f ≠ none) →
      Field.IsFirst (value? · = some []) field → Outcome value? (.error (.emptyField field))
  | built {s : Settings} : (∀ f ∈ Field.delimiters, value? f = some (s.get f) ∧ s.get f ≠ []) →
      s.resource = (value? .resource).getD inlineResource → Outcome value? (.ok s)

namespace Field

variable {p q : Field → Prop} {field : Field}

theorem find?_delimiters_iff {b : Field → Bool} (hb : ∀ f, b f = true ↔ p f) :
    delimiters.find? b = some field ↔ IsFirst p field := by
  rw [List.find?_eq_some_iff_append]
  simp only [IsFirst, ← hb, Bool.not_eq_true', Bool.not_eq_true]
  constructor
  · rintro ⟨hp, before, after, he, hbefore⟩
    exact ⟨before, after, he, hp, hbefore⟩
  · rintro ⟨before, after, he, hp, hbefore⟩
    exact ⟨hp, before, after, he, hbefore⟩

theorem IsFirst.unique {other : Field} (h : IsFirst p field) (k : IsFirst p other) :
    field = other := by
  classical
  have hb (f : Field) : decide (p f) = true ↔ p f := decide_eq_true_iff
  rw [← find?_delimiters_iff hb] at h k
  exact Option.some.inj (h.symm.trans k)

theorem IsFirst.mem (h : IsFirst p field) : field ∈ delimiters := by
  obtain ⟨before, after, he, -⟩ := h
  simp [he]

theorem IsFirst.holds (h : IsFirst p field) : p field := by
  obtain ⟨before, after, -, hp, -⟩ := h
  exact hp

theorem IsFirst.congr (hpq : ∀ f ∈ delimiters, p f ↔ q f) (h : IsFirst p field) :
    IsFirst q field := by
  have hmem := h.mem
  obtain ⟨before, after, he, hp, hbefore⟩ := h
  refine ⟨before, after, he, (hpq field hmem).mp hp, ?_⟩
  intro f hf
  exact mt (hpq f (by simp [he, hf])).mpr (hbefore f hf)

end Field

theorem ext_get {s t : Settings} (hr : s.resource = t.resource)
    (hd : ∀ f ∈ Field.delimiters, s.get f = t.get f) : s = t := by
  obtain ⟨r, sep, line, op, cl⟩ := s
  obtain ⟨r', sep', line', op', cl'⟩ := t
  simp only [Field.delimiters, List.mem_cons, List.not_mem_nil, or_false, forall_eq_or_imp,
    forall_eq, get] at hd
  obtain ⟨h1, h2, h3, h4⟩ := hd
  obtain rfl := hr
  obtain rfl := h1
  obtain rfl := h2
  obtain rfl := h3
  obtain rfl := h4
  rfl

theorem Outcome.unique {value? : Field → Option Text} {r t : Except Error Settings}
    (h : Outcome value? r) (k : Outcome value? t) : r = t := by
  cases h with
  | uninitialized hf =>
    cases k with
    | uninitialized hg => rw [hf.unique hg]
    | empty hset _ => exact absurd hf.holds (hset _ hf.mem)
    | built hset _ => cases hf.holds.symm.trans (hset _ hf.mem).1
  | empty hset hf =>
    cases k with
    | uninitialized hg => exact absurd hg.holds (hset _ hg.mem)
    | empty _ hg => rw [hf.unique hg]
    | built hfull _ =>
      obtain ⟨hs, hne⟩ := hfull _ hf.mem
      exact absurd (Option.some.inj (hs.symm.trans hf.holds)) hne
  | built hfull hr =>
    cases k with
    | uninitialized hg => cases hg.holds.symm.trans (hfull _ hg.mem).1
    | empty _ hg =>
      obtain ⟨hs, hne⟩ := hfull _ hg.mem
      exact absurd (Option.some.inj (hs.symm.trans hg.holds)) hne
    | built hfull' hr' =>
      have hfields (f : Field) (hf : f ∈ Field.delimiters) :=
        Option.some.inj ((hfull f hf).1.symm.trans (hfull' f hf).1)
      rw [ext_get (hr.trans hr'.symm) hfields]

theorem validate_eq_ok_iff_get {s : Settings} :
    s.validate = .ok () ↔ ∀ f ∈ Field.delimiters, s.get f ≠ [] := by
  rw [validate_eq_ok_iff]
  simp [Field.delimiters, get]

theorem validate_eq_error_iff {s : Settings} {e : Error} :
    s.validate = .error e ↔
      ∃ field, Field.IsFirst (s.get · = []) field ∧ e = .emptyField field := by
  simp only [← Field.find?_delimiters_iff fun _ => List.isEmpty_iff]
  unfold validate
  split
  · rename_i field hfield
    simp [hfield, eq_comm]
  · rename_i hnone
    simp [hnone]

namespace Draft

theorem get_filledFrom (d : Draft) (base : Settings) (f : Field) :
    (d.filledFrom base).get f = (d.get? f).getD (base.get f) := by
  cases f <;> rfl

/-- A build does what the values of its fields say. -/
theorem outcome_build (d : Draft) : Outcome d.get? d.build := by
  unfold build
  split
  · rename_i field hfield
    apply Outcome.uninitialized
    exact (Field.find?_delimiters_iff fun _ => Option.isNone_iff_eq_none).mp hfield
  · rename_i hset
    have hfull (f : Field) (hf : f ∈ Field.delimiters) :
        d.get? f = some ((d.filledFrom standard).get f) := by
      have hsome := List.find?_eq_none.mp hset f hf
      rw [Option.isNone_iff_eq_none, ← ne_eq, Option.ne_none_iff_exists'] at hsome
      obtain ⟨value, hvalue⟩ := hsome
      rw [get_filledFrom, hvalue, Option.getD_some]
    unfold checked
    cases hv : (d.filledFrom standard).validate with
    | error e =>
      obtain ⟨field, hfield, rfl⟩ := validate_eq_error_iff.mp hv
      apply Outcome.empty
      · intro f hf
        rw [hfull f hf]
        exact Option.some_ne_none _
      · apply hfield.congr
        intro f hf
        rw [hfull f hf, Option.some.injEq]
    | ok u =>
      apply Outcome.built
      · intro f hf
        exact ⟨hfull f hf, validate_eq_ok_iff_get.mp hv f hf⟩
      · rfl

theorem build_eq_iff {d : Draft} {r : Except Error Settings} : d.build = r ↔ Outcome d.get? r :=
  ⟨fun h => h ▸ d.outcome_build, fun h => d.outcome_build.unique h⟩

theorem build_ofSettings_eq_iff {s : Settings} {r : Except Error Settings} :
    (ofSettings s).build = r ↔
      s.validate = .ok () ∧ r = .ok s ∨ ∃ e, s.validate = .error e ∧ r = .error e := by
  have hfilled : (ofSettings s).filledFrom standard = s := rfl
  have hbuild : (ofSettings s).build = s.checked := rfl
  rw [hbuild, checked]
  cases s.validate <;> simp [eq_comm]

/-- Setters of different fields commute. -/
theorem set_comm (d : Draft) {f g : Field} (h : f ≠ g) (v w : Text) :
    (d.set f v).set g w = (d.set g w).set f v := by
  cases f <;> cases g <;> first | rfl | contradiction

/-- A step on a draft: a change of it, or the question what it is built into. -/
inductive Call where
  | edit (e : Edit)
  | build

/-- A change is answered by nothing, and a build changes nothing. -/
def call (d : Draft) : Call → Option (Except Error Settings) × Draft
  | .edit e => (none, d.apply e)
  | .build => (some d.build, d)

def callAll (d : Draft) : List Call → List (Option (Except Error Settings)) × Draft
  | [] => ([], d)
  | call :: calls =>
    let (answer, d') := d.call call
    let (answers, d'') := d'.callAll calls
    (answer :: answers, d'')

/-- What a call says of a field: nothing, that it is unset, or its value. -/
def Call.says? (field : Field) : Call → Option (Option Text)
  | .edit .restart => some none
  | .edit (.copy s) => some (some (s.get field))
  | .edit (.set f value) => if f = field then some (some value) else none
  | .build => none

/-- The value that the calls give a field last. It has none if they never do, or if they begin a
new draft after that. -/
def lastValue (calls : List Call) (field : Field) : Option Text :=
  (calls.reverse.findSome? (Call.says? field)).join

section Calls
variable {d : Draft} {calls before after : List Call}

theorem get?_call (d : Draft) (c : Call) (field : Field) :
    (d.call c).2.get? field = (c.says? field).getD (d.get? field) := by
  cases c with
  | build => rfl
  | edit e =>
    cases e with
    | restart => cases field <;> rfl
    | copy s => exact get?_ofSettings s field
    | set f value =>
      by_cases hf : f = field
      · subst hf
        simp [call, apply, Call.says?]
      · simp [call, apply, Call.says?, hf, get?_set_ne d (Ne.symm hf)]

theorem callAll_append (d : Draft) (before after : List Call) :
    d.callAll (before ++ after) =
      ((d.callAll before).1 ++ ((d.callAll before).2.callAll after).1,
        ((d.callAll before).2.callAll after).2) := by
  induction before generalizing d with
  | nil => rfl
  | cons c before ih => simp [callAll, ih]

theorem length_callAll (d : Draft) (calls : List Call) :
    (d.callAll calls).1.length = calls.length := by
  induction calls generalizing d with
  | nil => rfl
  | cons c calls ih => simp [callAll, ih]

/-- A run gives each field the value that its calls gave it last. -/
theorem get?_callAll (calls : List Call) (field : Field) :
    (empty.callAll calls).2.get? field = lastValue calls field := by
  induction calls using List.reverseRecOn with
  | nil => cases field <;> rfl
  | append_singleton calls c ih =>
    have hstep := get?_call (empty.callAll calls).2 c field
    rw [callAll_append]
    simp only [callAll]
    rw [hstep, ih, lastValue, lastValue, List.reverse_concat, List.findSome?_cons]
    cases c.says? field <;> rfl

/-- A build leaves the rest of a run alone, and adds its own answer. -/
theorem callAll_build (d : Draft) (before after : List Call) :
    d.callAll (before ++ .build :: after) =
      ((d.callAll (before ++ after)).1.insertIdx before.length (some (d.callAll before).2.build),
        (d.callAll (before ++ after)).2) := by
  have hinsert {α : Type} (as bs : List α) (a : α) :
      (as ++ bs).insertIdx as.length a = as ++ a :: bs := by
    induction as with
    | nil => rfl
    | cons b as ih => simpa using ih
  rw [callAll_append, callAll_append, ← length_callAll d before, hinsert]
  rfl

end Calls

/-- In every run of calls on a draft, a build answers what the values say that the fields were given
last: the first delimiter without a value, or else the first empty one, or else the settings with
these values. It changes no other answer, nor the draft. Setters of different fields commute, and
settings that are copied are built into themselves if they are valid, and refused as they are by
their own check otherwise. -/
theorem builds_answer_last_values (before after : List Call) :
    (∃ r, (∀ t, Outcome (lastValue before) t ↔ t = r) ∧
      empty.callAll (before ++ .build :: after) =
        ((empty.callAll (before ++ after)).1.insertIdx before.length (some r),
          (empty.callAll (before ++ after)).2)) ∧
    (∀ f g v w, f ≠ g →
      empty.callAll (before ++ .edit (.set f v) :: .edit (.set g w) :: after) =
        empty.callAll (before ++ .edit (.set g w) :: .edit (.set f v) :: after)) ∧
    ∀ s r, Outcome (lastValue (before ++ [.edit (.copy s)])) r ↔
      s.validate = .ok () ∧ r = .ok s ∨ ∃ e, s.validate = .error e ∧ r = .error e := by
  have hlast (calls : List Call) : (empty.callAll calls).2.get? = lastValue calls :=
    funext (get?_callAll calls)
  refine ⟨⟨(empty.callAll before).2.build, ?_, callAll_build empty before after⟩, ?_, ?_⟩
  · intro t
    rw [← hlast, ← build_eq_iff, eq_comm]
  · intro f g v w hne
    rw [callAll_append, callAll_append]
    simp only [callAll, call, apply, set_comm _ hne]
  · intro s r
    have hcopy : (empty.callAll (before ++ [.edit (.copy s)])).2 = ofSettings s := by
      rw [callAll_append]
      rfl
    rw [← hlast, hcopy, ← build_eq_iff, build_ofSettings_eq_iff]

/-- One build meets an unset delimiter and one an empty one, before a setter mends the copy. -/
theorem builds_answer_last_values_after_failures :
    let calls : List Call :=
      [.edit (.set .separator []), .build, .edit (.copy (standard.set .separator [])), .build,
        .edit (.set .separator ['@'])]
    let setSeparator : Call := .edit (.set .separator [])
    let setResource : Call := .edit (.set .resource ['f'])
    Outcome (lastValue calls) (.ok (standard.set .separator ['@'])) ∧
      Field.separator ≠ Field.resource ∧
      empty.callAll (calls ++ setSeparator :: setResource :: [.build]) =
        empty.callAll (calls ++ setResource :: setSeparator :: [.build]) := by
  intro calls setSeparator setResource
  have hne : Field.separator ≠ Field.resource := by decide
  obtain ⟨⟨r, hr, hcalls⟩, -, -⟩ := builds_answer_last_values calls []
  have hanswer : some (some (.ok (standard.set .separator ['@']))) = some (some r) :=
    congrArg (fun run => run.1[5]?) hcalls
  refine ⟨(hr _).mpr ?_, hne, (builds_answer_last_values calls [.build]).2.1 _ _ _ _ hne⟩
  exact Option.some.inj (Option.some.inj hanswer)

end Draft
end SqlStatements.Settings
