/-
The built-in dialects, one for each driver.
-/
import SqlDialects.Dialect.Basic

namespace SqlDialects.Dialect

/-- the reference: nothing to change -/
def mysql : Dialect := { label := "MySQLDialect", driver := .mysql }

/-- `string_agg` takes text only; fields are joined by an operator; comparisons are typed -/
def pgsql : Dialect where
  label := "PostgresDialect"
  driver := .pgsql
  capabilities :=
    { aggregateFunction := some "string_agg", inlineSeparator := true, castAggregateArgs := true,
      concatOperator := some "||", coalesceFunction := some "COALESCE", explicitCasts := true }

/-- the syntax of `pgsql` under a driver name of its own -/
def postgis : Dialect := { pgsql with label := "PostGISDialect", driver := .postgis }

/-- keeps `GROUP_CONCAT` and `IFNULL`; booleans are integers -/
def sqlite : Dialect where
  label := "SQLiteDialect"
  driver := .sqlite
  capabilities := { inlineSeparator := true, concatOperator := some "||", integerBooleans := true }

/-- the aggregate is an extension installed under the schema `dbo` -/
def sqlsrv : Dialect where
  label := "SQLServerDialect"
  driver := .sqlsrv
  capabilities :=
    { aggregateFunction := some "dbo.GROUP_CONCAT_D", inlineSeparator := true, coalesceFunction := some "ISNULL" }

def builtin : Driver → Dialect
  | .mysql => mysql
  | .pgsql => pgsql
  | .postgis => postgis
  | .sqlite => sqlite
  | .sqlsrv => sqlsrv

theorem driver_builtin (driver : Driver) : (builtin driver).driver = driver := by cases driver <;> rfl

end SqlDialects.Dialect
