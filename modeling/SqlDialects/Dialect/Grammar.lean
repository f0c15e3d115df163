/-
Grammars: what an external parser calls the SQL of each driver.

- `ofName?_text`: every driver has a grammar, found under the driver's name.
-/
import SqlDialects.Dialect.Basic
import SqlDialects.Text.Lowercase

namespace SqlDialects

inductive Grammar where
  | mysql
  | postgres
  | sqlite
  | tsql
deriving DecidableEq, Repr

namespace Grammar

def text : Grammar → String
  | mysql => "mysql"
  | postgres => "postgres"
  | sqlite => "sqlite"
  | tsql => "tsql"

/-- `postgis` is plain `pgsql` to a parser -/
def ofDriver : Driver → Grammar
  | .mysql => mysql
  | .pgsql => postgres
  | .postgis => postgres
  | .sqlite => sqlite
  | .sqlsrv => tsql

/-- the grammar for a driver name in any case -/
def ofName? (name : String) : Option Grammar := (Driver.ofText? (Text.lowercase name)).map ofDriver

theorem ofName?_text (driver : Driver) : ofName? driver.text = some (ofDriver driver) := by
  cases driver <;> decide +kernel

end Grammar

end SqlDialects
