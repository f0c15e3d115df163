/-
The translator: fragments of the reference dialect made fit for one target dialect.

`translate` returns a fragment for the reference driver as it is, and runs the rules for every other.
`translateChecked` runs the rules whatever the driver, and has the result checked by an external parser; what the
parser objects to is a warning.

- `translate_of_reference`, `translate_of_other`: what `translate` answers and logs.
- `translateChecked_unvalidated`, `translateChecked_validated`: what `translateChecked` answers, with and without the
  parser.
-/
import SqlDialects.Dialect.Registry
import SqlDialects.Rule.Pipeline
import SqlDialects.Text.Quoted
import SqlDialects.Validation

namespace SqlDialects

structure Translator where
  dialect : Dialect
  tablePrefix : String
  rules : List Rule
  /-- `translateChecked` asks the parser -/
  validates : Bool

/-- a translated fragment, the rules that changed it, and what the parser had to say -/
structure Checked where
  sql : Fragment
  driver : Driver
  applied : List String
  warnings : List String
  valid : Bool
deriving DecidableEq, Repr

/-- what a translator is built from -/
structure TranslatorOptions where
  dialect : DialectChoice := .named Driver.reference.text
  tablePrefix : String := ""
  rules : List Rule := Rule.defaults
  validates : Bool := true

namespace Translator

def create (registry : Registry) (options : TranslatorOptions) : Traced UnsupportedDialect Translator := do
  let dialect ← registry.resolve options.dialect
  pure ⟨dialect, options.tablePrefix, options.rules, options.validates⟩

def driver (translator : Translator) : Driver := translator.dialect.driver

def describe (translator : Translator) : String :=
  "Dongle(driver=" ++ Text.quoted translator.driver.text ++ ", table_prefix=" ++
    Text.quoted translator.tablePrefix ++ ")"

/-- a log record for each rule that changed the fragment -/
def ruleEvents (dialect : Dialect) (adapted : Adapted) : List Event :=
  adapted.applied.map fun rule =>
    .log ⟨.rules, .debug, rule ++ " rewrote fragment for " ++ dialect.driver.text⟩

/-- the rules run for a dialect -/
def runRules {ε : Type} (rules : List Rule) (dialect : Dialect) (sql : Fragment) : Traced ε Adapted :=
  let adapted := adapt rules dialect.capabilities sql
  ⟨ruleEvents dialect adapted, .ok adapted⟩

def translate {ε : Type} (translator : Translator) (sql : Fragment) : Traced ε Fragment :=
  if translator.dialect.isReference then pure sql
  else do
    let adapted ← runRules translator.rules translator.dialect sql
    pure adapted.sql

def warning (message : String) : String := "SQL validation: " ++ message

/-- the answer of `translateChecked`, given the messages of the parser -/
def checkedAs (translator : Translator) (adapted : Adapted) (messages : List String) : Checked :=
  ⟨adapted.sql, translator.driver, adapted.applied, messages.map warning, messages.isEmpty⟩

def translateChecked (translator : Translator) (parser : Parser) (sql : Fragment) : Traced ParserError Checked := do
  let adapted ← runRules translator.rules translator.dialect sql
  let messages ← if translator.validates then validate parser adapted.sql translator.driver.text else pure []
  pure (translator.checkedAs adapted messages)

theorem translate_of_reference {ε : Type} {translator : Translator} (h : translator.dialect.isReference = true)
    (sql : Fragment) : (translator.translate sql : Traced ε Fragment) = pure sql := by
  simp [translate, h]

theorem translate_of_other {ε : Type} {translator : Translator} (h : translator.dialect.isReference = false)
    (sql : Fragment) :
    (translator.translate sql : Traced ε Fragment) =
      let adapted := adapt translator.rules translator.dialect.capabilities sql
      ⟨ruleEvents translator.dialect adapted, .ok adapted.sql⟩ := by
  rw [translate, h, if_neg Bool.false_ne_true, Traced.bind_of_ok _ rfl]
  simp [runRules]

theorem translateChecked_unvalidated {translator : Translator} (h : translator.validates = false) (parser : Parser)
    (sql : Fragment) :
    translator.translateChecked parser sql =
      let adapted := adapt translator.rules translator.dialect.capabilities sql
      ⟨ruleEvents translator.dialect adapted, .ok (translator.checkedAs adapted [])⟩ := by
  rw [translateChecked, Traced.bind_of_ok _ rfl, h, if_neg Bool.false_ne_true, Traced.bind_of_ok _ rfl]
  simp [runRules]

theorem translateChecked_validated {translator : Translator} (h : translator.validates = true) (parser : Parser)
    (sql : Fragment) :
    translator.translateChecked parser sql =
      let adapted := adapt translator.rules translator.dialect.capabilities sql
      let verdict := validate parser adapted.sql translator.driver.text
      ⟨ruleEvents translator.dialect adapted ++ verdict.events,
        verdict.outcome.map (translator.checkedAs adapted)⟩ := by
  rw [translateChecked, Traced.bind_of_ok _ rfl, h, if_pos rfl]
  cases hv : (validate parser (adapt translator.rules translator.dialect.capabilities sql).sql
      translator.driver.text).outcome with
  | ok messages => rw [Traced.bind_of_ok _ hv]; simp [runRules, hv, Except.map]
  | error e => rw [Traced.bind_of_error _ hv]; simp [runRules, hv, Except.map]

/-- one rule by itself -/
def applyRule (translator : Translator) (rule : Rule) (sql : Fragment) : Fragment :=
  rule.apply translator.dialect.capabilities sql

def cast (translator : Translator) (expression type : String) : String :=
  castExpression translator.dialect.capabilities expression type

end Translator

end SqlDialects
