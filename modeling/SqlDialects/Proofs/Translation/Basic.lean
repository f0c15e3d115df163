/-
Translation as a function on fragments.

- `translated`: the answer of `translate`, which always has one: no error is left to choose from.
- `translated_eq`: the answer is the fragment itself for the reference driver, and what the rules make of it for any
  other.
- `sql_adapt_defaults`: the default rules, one on the result of the other.
- `translated_builtin`: for a built-in dialect the shortcut for the reference makes no difference.
-/
import SqlDialects.Translator

namespace SqlDialects

/-- what the default rules make of a fragment -/
theorem sql_adapt_defaults (needs : Capabilities) (sql : Fragment) :
    (adapt Rule.defaults needs sql).sql =
      BooleanLiteral.apply needs (NullCoalesce.apply needs (FieldConcat.apply needs (Aggregate.apply needs sql))) :=
  Adapted.sql_run needs ⟨sql, []⟩ Rule.defaults

/-- capabilities for which the default rules have nothing to do -/
structure Capabilities.AskNothing (needs : Capabilities) : Prop where
  aggregate : Aggregate.active needs = false
  concat : needs.concatOperator = none
  coalesce : needs.coalesceFunction = none
  booleans : needs.integerBooleans = false

theorem sql_adapt_of_askNothing {needs : Capabilities} (h : needs.AskNothing) (sql : Fragment) :
    (adapt Rule.defaults needs sql).sql = sql := by
  rw [sql_adapt_defaults]
  simp only [Aggregate.apply, FieldConcat.apply, NullCoalesce.apply, BooleanLiteral.apply, h.aggregate, h.concat,
    h.coalesce, h.booleans, Bool.false_eq_true, if_false]

theorem askNothing_mysql : Dialect.mysql.capabilities.AskNothing := ⟨rfl, rfl, rfl, rfl⟩

namespace Translator

/-- the answer of `translate` -/
def translated (translator : Translator) (sql : Fragment) : Fragment :=
  match (translator.translate sql : Traced Empty Fragment).outcome with
  | .ok out => out
  | .error e => nomatch e

theorem translated_eq (translator : Translator) (sql : Fragment) :
    translator.translated sql =
      if translator.dialect.isReference then sql else (adapt translator.rules translator.dialect.capabilities sql).sql := by
  unfold translated
  cases h : translator.dialect.isReference with
  | true => rw [translate_of_reference h]; rfl
  | false => rw [translate_of_other h]; rfl

/-! ## Built-in dialects -/

/-- the translator for a driver, with nothing but the dialect chosen -/
def builtin (driver : Driver) : Translator := ⟨Dialect.builtin driver, "", Rule.defaults, true⟩

theorem translated_builtin (driver : Driver) (sql : Fragment) :
    (builtin driver).translated sql = (adapt Rule.defaults (Dialect.builtin driver).capabilities sql).sql := by
  rw [translated_eq]
  cases driver with
  | mysql => exact (sql_adapt_of_askNothing askNothing_mysql sql).symm
  | pgsql => rfl
  | postgis => rfl
  | sqlite => rfl
  | sqlsrv => rfl

end Translator

end SqlDialects
