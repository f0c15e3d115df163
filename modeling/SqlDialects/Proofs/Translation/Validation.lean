/-
Validation and the translation that it is asked about.

- `Parser.Breaks`: the parser stops with an error that is no objection to the text.
- `validate_answers_iff`: the messages are there unless the parser breaks.
- `Translator.validation_passes_iff`: so is a checked translation, and then it is the one without validation. A parser
  that breaks takes the translation with it, although the rules have run.
-/
import SqlDialects.Proofs.Translation.Basic

namespace SqlDialects

/-- the parser fails itself, rather than objecting to the text -/
def Parser.Breaks (parser : Parser) (sql : Fragment) (grammar : Grammar) : Prop :=
  ∃ e, parser sql grammar = some e ∧ e.kind.isObjection = false

/-- what the parser has to say of a text, as long as it does not break -/
def Parser.objections (parser : Parser) (sql : Fragment) (grammar : Grammar) : List String :=
  (parser sql grammar).toList.map ParserError.message

variable {parser : Parser} {sql : Fragment} {grammar : Grammar}

theorem outcome_validate_of_breaks {dialect : String} (h : Grammar.ofName? dialect = some grammar) {e : ParserError}
    (he : parser sql grammar = some e) (hkind : e.kind.isObjection = false) :
    (validate parser sql dialect).outcome = .error e := by
  rw [validate_of_known h, he]
  simp [hkind]

theorem outcome_validate_of_not_breaks {dialect : String} (h : Grammar.ofName? dialect = some grammar)
    (hb : ¬ parser.Breaks sql grammar) :
    (validate parser sql dialect).outcome = .ok (parser.objections sql grammar) := by
  rw [validate_of_known h, Parser.objections]
  cases he : parser sql grammar with
  | none => rfl
  | some e =>
    have hkind : e.kind.isObjection = true := by
      cases hkind : e.kind.isObjection with
      | true => rfl
      | false => exact absurd ⟨e, he, hkind⟩ hb
    simp [hkind]

/-- **The messages are there unless the parser breaks**, whatever the name. -/
theorem validate_answers_iff (parser : Parser) (sql : Fragment) (dialect : String) :
    (∃ messages, (validate parser sql dialect).outcome = .ok messages) ↔
      ∀ grammar, Grammar.ofName? dialect = some grammar → ¬ parser.Breaks sql grammar := by
  cases h : Grammar.ofName? dialect with
  | none => simp [validate, h]
  | some grammar =>
    simp only [Option.some.injEq, forall_eq']
    refine ⟨?_, ?_⟩
    · rintro ⟨messages, hm⟩ ⟨e, he, hkind⟩
      rw [outcome_validate_of_breaks h he hkind] at hm
      cases hm
    · intro hb
      exact ⟨_, outcome_validate_of_not_breaks h hb⟩

/-- `checked` is `plain`, with what the parser had to say -/
structure Checked.Annotates (checked plain : Checked) (objections : List String) : Prop where
  sql_eq : checked.sql = plain.sql
  applied_eq : checked.applied = plain.applied
  driver_eq : checked.driver = plain.driver
  warnings_eq : checked.warnings = objections.map Translator.warning
  valid_iff : checked.valid = true ↔ checked.warnings = []

namespace Translator

/-- the same translator, without validation -/
def unvalidated (translator : Translator) : Translator := { translator with validates := false }

/-- the translation of the fragment is validated, and the parser breaks on it -/
def BreaksOn (translator : Translator) (parser : Parser) (sql : Fragment) : Prop :=
  translator.validates = true ∧
    parser.Breaks (adapt translator.rules translator.dialect.capabilities sql).sql (Grammar.ofDriver translator.driver)

/-- the objections of the parser to the translation of the fragment -/
def objections (translator : Translator) (parser : Parser) (sql : Fragment) : List String :=
  if translator.validates then
    parser.objections (adapt translator.rules translator.dialect.capabilities sql).sql (Grammar.ofDriver translator.driver)
  else []

variable {translator : Translator}

theorem outcome_of_not_breaksOn (h : ¬ translator.BreaksOn parser sql) :
    (translator.translateChecked parser sql).outcome =
      .ok (translator.checkedAs (adapt translator.rules translator.dialect.capabilities sql)
        (translator.objections parser sql)) := by
  cases hv : translator.validates with
  | false => rw [translateChecked_unvalidated hv, objections, hv]; rfl
  | true =>
    have hb := fun hb => h ⟨hv, hb⟩
    rw [translateChecked_validated hv, objections, hv]
    simp only [outcome_validate_of_not_breaks (Grammar.ofName?_text translator.driver) hb]
    rfl

theorem outcome_of_breaksOn (hv : translator.validates = true) {e : ParserError}
    (he : parser (adapt translator.rules translator.dialect.capabilities sql).sql (Grammar.ofDriver translator.driver) =
      some e) (hkind : e.kind.isObjection = false) :
    (translator.translateChecked parser sql).outcome = .error e := by
  rw [translateChecked_validated hv]
  simp only [outcome_validate_of_breaks (Grammar.ofName?_text translator.driver) he hkind]
  rfl

theorem annotates_checkedAs (translator : Translator) (adapted : Adapted) (messages : List String) :
    (translator.checkedAs adapted messages).Annotates (translator.checkedAs adapted []) messages where
  sql_eq := rfl
  applied_eq := rfl
  driver_eq := rfl
  warnings_eq := rfl
  valid_iff := by simp [checkedAs]

/-- a translation is answered unless the parser breaks on it -/
theorem answers_iff_not_breaksOn (translator : Translator) (parser : Parser) (sql : Fragment) :
    (∃ checked, (translator.translateChecked parser sql).outcome = .ok checked) ↔ ¬ translator.BreaksOn parser sql := by
  refine ⟨?_, fun h => ⟨_, outcome_of_not_breaksOn h⟩⟩
  rintro ⟨checked, hc⟩ ⟨hv, e, he, hkind⟩
  rw [outcome_of_breaksOn hv he hkind] at hc
  cases hc

/-- a parser that gives up on every text -/
def exhausted : Parser := fun _ _ => some ⟨.tooDeep, "maximum recursion depth exceeded"⟩

theorem breaksOn_exhausted_iff (translator : Translator) (sql : Fragment) :
    translator.BreaksOn exhausted sql ↔ translator.validates = true :=
  ⟨fun h => h.1, fun hv => ⟨hv, _, rfl, rfl⟩⟩

/-- **Where validation lets a translation through**: unless the parser breaks on it, whatever it objects to. The answer
is then the one without validation, and what the parser objects to stands beside it; a parser that breaks leaves its
error and no answer. So only a translator that does not validate answers whatever the parser does. -/
theorem validation_passes_iff (translator : Translator) :
    (∀ (parser : Parser) (sql : Fragment) (dialect : String),
      (∃ messages, (validate parser sql dialect).outcome = .ok messages) ↔
        ∀ grammar, Grammar.ofName? dialect = some grammar → ¬ parser.Breaks sql grammar) ∧
    (∀ parser sql, ∃ plain, (translator.unvalidated.translateChecked parser sql).outcome = .ok plain ∧
      ((∃ checked, (translator.translateChecked parser sql).outcome = .ok checked) ↔ ¬ translator.BreaksOn parser sql) ∧
      (∀ checked, (translator.translateChecked parser sql).outcome = .ok checked →
        checked.Annotates plain (translator.objections parser sql)) ∧
      ∀ e, (translator.translateChecked parser sql).outcome = .error e →
        parser plain.sql (Grammar.ofDriver translator.driver) = some e ∧ e.kind.isObjection = false) ∧
    ((∀ parser sql, ∃ checked, (translator.translateChecked parser sql).outcome = .ok checked) ↔
      translator.validates = false) := by
  refine ⟨validate_answers_iff, fun parser sql => ?_, ?_⟩
  · have hplain : (translator.unvalidated.translateChecked parser sql).outcome =
        .ok (translator.checkedAs (adapt translator.rules translator.dialect.capabilities sql) []) := by
      rw [translateChecked_unvalidated rfl]; rfl
    refine ⟨_, hplain, answers_iff_not_breaksOn translator parser sql, fun checked hc => ?_, fun e he => ?_⟩
    · have h := (answers_iff_not_breaksOn translator parser sql).1 ⟨checked, hc⟩
      rw [outcome_of_not_breaksOn h] at hc
      cases hc
      exact annotates_checkedAs translator _ _
    · by_cases h : translator.BreaksOn parser sql
      · obtain ⟨hv, e', he', hkind⟩ := h
        rw [outcome_of_breaksOn hv he' hkind] at he
        cases he
        exact ⟨he', hkind⟩
      · rw [outcome_of_not_breaksOn h] at he
        cases he
  · simp only [answers_iff_not_breaksOn]
    refine ⟨fun h => ?_, fun hv parser sql hb => ?_⟩
    · have hnot := h exhausted []
      rw [breaksOn_exhausted_iff] at hnot
      simpa using hnot
    · rw [hb.1] at hv; cases hv

/-- the parser gives up on a fragment that was translated already -/
theorem blocked_exhausted : (builtin .pgsql).BreaksOn exhausted "SELECT CONCAT(a, b) FROM t".toList ∧
    ¬ ∃ checked, ((builtin .pgsql).translateChecked exhausted "SELECT CONCAT(a, b) FROM t".toList).outcome =
      .ok checked := by
  have hbreaks := (breaksOn_exhausted_iff (builtin .pgsql) "SELECT CONCAT(a, b) FROM t".toList).2 rfl
  obtain ⟨plain, -, hiff, -⟩ := (validation_passes_iff (builtin .pgsql)).2.1 exhausted _
  exact ⟨hbreaks, fun hanswer => hiff.1 hanswer hbreaks⟩

end Translator

end SqlDialects
