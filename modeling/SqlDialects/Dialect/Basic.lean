/-
Dialects of SQL, as far as the rules of the library tell them apart.

A dialect belongs to a driver and has capabilities: what the target lacks or writes in another way. Every fragment is
written for the reference driver, `mysql`; the capabilities that nothing is said about ask for no change.

- `Driver.ofText?_text`: the name of a driver is read back as that driver.
-/

namespace SqlDialects

/-- the database drivers that have a dialect -/
inductive Driver where
  | mysql
  | pgsql
  | postgis
  | sqlite
  | sqlsrv
deriving DecidableEq, Repr

namespace Driver

/-- every driver, in the alphabetical order of their names -/
def all : List Driver := [mysql, pgsql, postgis, sqlite, sqlsrv]

/-- the driver whose SQL all fragments are written in -/
def reference : Driver := mysql

def text : Driver → String
  | mysql => "mysql"
  | pgsql => "pgsql"
  | postgis => "postgis"
  | sqlite => "sqlite"
  | sqlsrv => "sqlsrv"

/-- the driver of that name, in lower case -/
def ofText? : String → Option Driver
  | "mysql" => some mysql
  | "pgsql" => some pgsql
  | "postgis" => some postgis
  | "sqlite" => some sqlite
  | "sqlsrv" => some sqlsrv
  | _ => none

theorem mem_all (driver : Driver) : driver ∈ all := by cases driver <;> decide

theorem ofText?_text (driver : Driver) : ofText? driver.text = some driver := by cases driver <;> rfl

end Driver

/-- what a dialect needs of each rule -/
structure Capabilities where
  /-- name of the aggregate that concatenates, where it is not `GROUP_CONCAT` -/
  aggregateFunction : Option String := none
  /-- the separator of an aggregate is a plain second argument -/
  inlineSeparator : Bool := false
  /-- the aggregate takes text only -/
  castAggregateArgs : Bool := false
  /-- operator that concatenates fields, where there is no `CONCAT` -/
  concatOperator : Option String := none
  /-- name of the function that replaces null, where it is not `IFNULL` -/
  coalesceFunction : Option String := none
  /-- booleans are stored as the integers 0 and 1 -/
  integerBooleans : Bool := false
  /-- comparisons between types need a cast -/
  explicitCasts : Bool := false
deriving DecidableEq, Repr

/-- a dialect; the label is what it is called in descriptions -/
structure Dialect where
  label : String
  driver : Driver
  capabilities : Capabilities := {}
deriving DecidableEq, Repr

namespace Dialect

def isReference (dialect : Dialect) : Bool := dialect.driver == .reference

def describe (dialect : Dialect) : String := dialect.label ++ "(name='" ++ dialect.driver.text ++ "')"

end Dialect

end SqlDialects
