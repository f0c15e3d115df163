/-
Translation neither breaks a fragment nor mends one.

- `Capabilities.FlatNames`: no name and no operator that the rules put into a fragment has a mark, a backslash or a
  parenthesis; those of the built-in dialects have none (`flatNames_builtin`).
- `interchangeable_adapt`: with such names no reader notices the default rules.
- `wellFormed_translated`: what a built-in dialect makes of a fragment is well-formed exactly if the fragment is.
-/
import SqlDialects.Proofs.Aggregate.Calls
import SqlDialects.Proofs.BooleanLiteral.Pattern
import SqlDialects.Proofs.FieldConcat.Reading
import SqlDialects.Proofs.NullCoalesce.Pattern
import SqlDialects.Proofs.Translation.Basic

namespace SqlDialects

open Fragment Cursor

/-- the names and the operator that the rules write are flat -/
structure Capabilities.FlatNames (needs : Capabilities) : Prop where
  aggregate : ∀ name ∈ needs.aggregateFunction, Flat name.toList
  concat : ∀ operator ∈ needs.concatOperator, Flat operator.toList
  coalesce : ∀ name ∈ needs.coalesceFunction, Flat name.toList

theorem flatNames_builtin (driver : Driver) : (Dialect.builtin driver).capabilities.FlatNames := by
  cases driver
  all_goals exact ⟨by decide, by decide, by decide⟩

/-- **No reader notices the default rules**, in a malformed fragment neither. -/
theorem interchangeable_adapt {needs : Capabilities} (hn : needs.FlatNames) (sql : Fragment) :
    start.Interchangeable sql (adapt Rule.defaults needs sql).sql := by
  have hproper : start.quoting.Proper := trivial
  rw [sql_adapt_defaults]
  have haggregate := Aggregate.interchangeable_apply hn.aggregate sql hproper
  have hconcat := FieldConcat.interchangeable_apply hn.concat (Aggregate.apply needs sql) (s := start) rfl
  have hcoalesce := NullCoalesce.interchangeable_apply hn.coalesce
    (FieldConcat.apply needs (Aggregate.apply needs sql)) hproper
  exact ((haggregate.trans hconcat).trans hcoalesce).trans (BooleanLiteral.interchangeable_apply needs _ hproper)

/-- **Translation neither breaks nor mends a fragment**: for every built-in dialect the translation has all its
quotations closed and all its parentheses matched exactly if the fragment has. -/
theorem Translator.wellFormed_translated (driver : Driver) (sql : Fragment) :
    ((builtin driver).translated sql).WellFormed ↔ sql.WellFormed := by
  have hsame := interchangeable_adapt (flatNames_builtin driver) sql
  calc ((builtin driver).translated sql).WellFormed
      ↔ (adapt Rule.defaults (Dialect.builtin driver).capabilities sql).sql.WellFormed := by rw [translated_builtin]
    _ ↔ sql.WellFormed := (wellFormed_congr hsame).symm

end SqlDialects
