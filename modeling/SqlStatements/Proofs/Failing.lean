import SqlStatements.Proofs.Detection
import SqlStatements.Proofs.Assembling

namespace SqlStatements

/-- A scan fails at the settings, or at the opener that ends the token stream. -/
theorem scan_eq_error_iff {settings : Settings} {script : Text} {e : Failure} :
    scan settings script = .error e ↔
      (∃ why, settings.validate = .error why ∧ e = .settings why) ∨
        settings.validate = .ok () ∧
          (TokenStream.read settings 0 script).failure? settings [] = some e := by
  rw [scan]
  cases settings.validate with
  | error why => simp [eq_comm]
  | ok u =>
    dsimp only
    cases (TokenStream.read settings 0 script).failure? settings [] <;> simp

/-- An unchecked run fails at the opener that ends the token stream, wherever in a block it
stands. -/
theorem splitUnchecked_eq_error_iff {settings : Settings} {script : Text} {e : Failure} :
    (splitUnchecked settings script).result = .error e ↔
      (TokenStream.read settings 0 script).failure? settings [] = some e := by
  rw [splitUnchecked_eq]
  cases (TokenStream.read settings 0 script).failure? settings [] <;> simp

/-- Under settings that are not valid nothing is split. -/
theorem split_of_invalid {settings : Settings} {why : Settings.Error}
    (h : settings.validate = .error why) (script : Text) :
    split settings script = ⟨[], .error (.settings why)⟩ := by
  rw [SqlStatements.split, h]
  rfl

/-- Delimiters given one by one are checked like those of the settings they make up. -/
theorem splitWith_eq_split (settings : Settings) (script : Text) :
    splitWith settings.resource script settings.separator settings.lineComment
      settings.blockOpen settings.blockClose = split settings script := by
  rw [splitWith, Settings.checked]
  cases h : settings.validate with
  | error why =>
    rw [split_of_invalid h]
    rfl
  | ok u => rfl

/-- Splitting fails exactly when scanning does, and with the same failure: no block and no `END`
keeps the splitter from an opener without an end, or lets it stop before one. Giving the
delimiters one by one makes no difference. -/
theorem split_fails_with_scan (settings : Settings) (script : Text) :
    (∀ e, (split settings script).result = .error e ↔ scan settings script = .error e) ∧
      splitWith settings.resource script settings.separator settings.lineComment
        settings.blockOpen settings.blockClose = split settings script := by
  refine ⟨?_, splitWith_eq_split settings script⟩
  intro e
  rw [scan_eq_error_iff]
  cases h : settings.validate with
  | error why =>
    rw [split_of_invalid h]
    simp [eq_comm]
  | ok u =>
    rw [result_split_of_valid h, splitUnchecked_eq_error_iff]
    simp

end SqlStatements
