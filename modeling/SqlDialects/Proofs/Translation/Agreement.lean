/-
The two ways to translate. `translate` has a shortcut for the reference driver that `translateChecked` and the single
rules do not have.

- `sql_of_translateChecked`: `translateChecked` answers, if it does, with what the rules make of the fragment.
- `oneByOne_eq`: the default rules applied by hand make the same of it.
- `paths_agree_iff`: where the ways agree. They do for every driver but the reference, and for the reference on the
  fragments that its rules keep; with the default rules these are all fragments only if the dialect asks for nothing.
-/
import SqlDialects.Proofs.Translation.Needs

namespace SqlDialects

namespace Translator

/-- on this fragment `translateChecked`, if it answers, has the same SQL as `translate` -/
def Agrees (translator : Translator) (sql : Fragment) : Prop :=
  ∀ parser checked, (translator.translateChecked parser sql).outcome = .ok checked →
    checked.sql = translator.translated sql

/-- the default rules, each applied by itself to the result of the one before -/
def oneByOne (translator : Translator) (sql : Fragment) : Fragment :=
  translator.applyRule .booleanLiteral (translator.applyRule .nullCoalesce (translator.applyRule .fieldConcat
    (translator.applyRule .aggregateConcat sql)))

theorem oneByOne_eq {translator : Translator} (h : translator.rules = Rule.defaults) (sql : Fragment) :
    translator.oneByOne sql = (adapt translator.rules translator.dialect.capabilities sql).sql := by
  rw [h, sql_adapt_defaults]; rfl

theorem sql_of_translateChecked {translator : Translator} {parser : Parser} {sql : Fragment} {checked : Checked}
    (h : (translator.translateChecked parser sql).outcome = .ok checked) :
    checked.sql = (adapt translator.rules translator.dialect.capabilities sql).sql := by
  cases hv : translator.validates with
  | false =>
    rw [translateChecked_unvalidated hv] at h
    cases h; rfl
  | true =>
    rw [translateChecked_validated hv] at h
    simp only at h
    cases hm : (validate parser (adapt translator.rules translator.dialect.capabilities sql).sql
        translator.driver.text).outcome with
    | error e => rw [hm] at h; cases h
    | ok messages => rw [hm] at h; cases h; rfl

/-- with a parser that accepts everything there is an answer -/
theorem exists_translateChecked (translator : Translator) (sql : Fragment) :
    ∃ parser checked, (translator.translateChecked parser sql).outcome = .ok checked := by
  refine ⟨fun _ _ => none, ?_⟩
  cases hv : translator.validates with
  | false => rw [translateChecked_unvalidated hv]; exact ⟨_, rfl⟩
  | true =>
    rw [translateChecked_validated hv]
    simp only [validate_of_known (Grammar.ofName?_text translator.driver)]
    exact ⟨_, rfl⟩

theorem agrees_iff_sql (translator : Translator) (sql : Fragment) : translator.Agrees sql ↔
    (adapt translator.rules translator.dialect.capabilities sql).sql = translator.translated sql := by
  refine ⟨?_, ?_⟩
  · intro h
    obtain ⟨parser, checked, hchecked⟩ := exists_translateChecked translator sql
    rw [← sql_of_translateChecked hchecked]
    exact h parser checked hchecked
  · intro h parser checked hchecked
    rw [sql_of_translateChecked hchecked, h]

/-- the shortcut shows where the rules would change the fragment -/
theorem eq_translated_iff (translator : Translator) (sql : Fragment) :
    (adapt translator.rules translator.dialect.capabilities sql).sql = translator.translated sql ↔
      (translator.dialect.isReference = true →
        (adapt translator.rules translator.dialect.capabilities sql).sql = sql) := by
  rw [translated_eq]
  cases h : translator.dialect.isReference with
  | true => exact ⟨fun h _ => h, fun h => h rfl⟩
  | false =>
    refine ⟨fun _ h => ?_, fun _ => rfl⟩
    cases h

/-- **Where the ways to translate agree**: on a fragment that the rules keep, and on any fragment if the driver is not the
reference. With the default rules `translateChecked` always agrees with the rules applied by hand, and `translate` does so
where it agrees with `translateChecked`; for the reference driver it does everywhere only if the dialect asks for nothing. -/
theorem paths_agree_iff (translator : Translator) :
    (∀ sql, translator.Agrees sql ↔ (translator.dialect.isReference = true →
      (adapt translator.rules translator.dialect.capabilities sql).sql = sql)) ∧
    (translator.rules = Rule.defaults →
      (∀ parser sql checked, (translator.translateChecked parser sql).outcome = .ok checked →
        checked.sql = translator.oneByOne sql) ∧
      (∀ sql, translator.translated sql = translator.oneByOne sql ↔ translator.Agrees sql) ∧
      ((∀ sql, translator.Agrees sql) ↔
        (translator.dialect.isReference = true → translator.dialect.capabilities.AskNothing))) := by
  have hagrees (sql : Fragment) := calc translator.Agrees sql
    _ ↔ (adapt translator.rules translator.dialect.capabilities sql).sql = translator.translated sql :=
        agrees_iff_sql translator sql
    _ ↔ (translator.dialect.isReference = true →
          (adapt translator.rules translator.dialect.capabilities sql).sql = sql) := eq_translated_iff translator sql
  refine ⟨hagrees, fun hrules => ⟨fun parser sql checked h => ?_, fun sql => ?_, ?_⟩⟩
  · rw [sql_of_translateChecked h, oneByOne_eq hrules]
  · rw [oneByOne_eq hrules, agrees_iff_sql, eq_comm]
  · refine ⟨?_, ?_⟩
    · intro h href
      refine askNothing_of_forall_eq fun sql => ?_
      rw [← hrules]
      exact (hagrees sql).1 (h sql) href
    · intro h sql
      rw [hagrees, hrules]
      intro href
      exact sql_adapt_of_askNothing (h href) sql

/-- a translator for the reference driver that has another name for a function -/
def renamed : Translator :=
  ⟨{ label := "CustomDialect", driver := .mysql, capabilities := { coalesceFunction := some "COALESCE" } }, "",
    Rule.defaults, true⟩

theorem paths_disagree_renamed : renamed.rules = Rule.defaults ∧ ¬ ∀ sql, renamed.Agrees sql := by
  refine ⟨rfl, fun h => ?_⟩
  have hnothing := ((paths_agree_iff renamed).2 rfl).2.2.1 h rfl
  cases hnothing.coalesce

end Translator

end SqlDialects
