/-
Administration of a schema through one connection. Both operations do something for the reference driver only.

`convertTimestamps` makes timestamp columns nullable and replaces zero dates by null, one column after the other, and
stops where the connection fails. `disableStrictMode` clears the SQL mode of the session once: after it succeeded it
does nothing, and after a failure a later call tries again.
-/
import SqlDialects.Schema.Connection
import SqlDialects.Translator

namespace SqlDialects

structure Admin where
  translator : Translator
  /-- whether the session is strict; nothing: the configuration of the connection decides -/
  strict : Option Bool
  strictModeDisabled : Bool := false

/-- the columns to convert -/
inductive Columns where
  | standard
  | one (name : String)
  | several (names : List String)
deriving DecidableEq, Repr

def Columns.names : Columns → List String
  | standard => ["created_at", "updated_at"]
  | one name => [name]
  | several names => names

namespace Admin

/-- whether the driver is the one that administration is for -/
def active (admin : Admin) : Bool := admin.translator.driver == .reference

/-! ## Timestamps -/

def nullableStatement (table column : String) : String :=
  "ALTER TABLE " ++ table ++ " MODIFY `" ++ column ++ "` TIMESTAMP NULL DEFAULT NULL"

def clearZeroDates (table column : String) : String :=
  "UPDATE " ++ table ++ " SET " ++ column ++ " = null WHERE " ++ column ++ " = 0"

def convertColumn (connection : Connection) (table column : String) : Traced StatementFailed Unit := do
  Traced.log .schema .info ("Converting " ++ table ++ "." ++ column ++ " to nullable TIMESTAMP")
  connection.execute (nullableStatement table column)
  connection.update (clearZeroDates table column)

def convertColumns (connection : Connection) (table : String) : List String → Traced StatementFailed Unit
  | [] => pure ()
  | column :: columns => do
    convertColumn connection table column
    convertColumns connection table columns

def convertTimestamps (admin : Admin) (connection : Connection) (table : String) (columns : Columns) :
    Traced StatementFailed Unit :=
  if admin.active then convertColumns connection (admin.translator.tablePrefix ++ table) columns.names else pure ()

/-! ## Strict mode -/

def clearMode : String := "SET @@SQL_MODE=''"

/-- whether the session is strict: as the administration was told, or else unless the connection says no -/
def isStrict {ε : Type} (admin : Admin) (connection : Connection) : Traced ε Bool :=
  match admin.strict with
  | some strict => pure strict
  | none => do
    let value ← connection.readConfig "strict"
    pure (value != .bool false)

/-- clears the SQL mode if there is anything to clear; true if this call did it -/
def clearStrictMode (admin : Admin) (connection : Connection) : Traced StatementFailed Bool := do
  if !admin.active || admin.strictModeDisabled then return false
  if !(← admin.isStrict connection) then return false
  connection.execute clearMode
  Traced.log .schema .info "Strict mode disabled"
  return true

/-- the administration after a call of `clearStrictMode` with that outcome -/
def noting (admin : Admin) : Except StatementFailed Bool → Admin
  | .ok true => { admin with strictModeDisabled := true }
  | _ => admin

def disableStrictMode (admin : Admin) (connection : Connection) : Admin × Traced StatementFailed Bool :=
  let attempt := admin.clearStrictMode connection
  (admin.noting attempt.outcome, attempt)

/-- several calls of `disableStrictMode` in a row, up to the first failure: how many of them cleared the mode -/
def disableRepeatedly (admin : Admin) (connection : Connection) : Nat → Admin × Traced StatementFailed Nat
  | 0 => (admin, pure 0)
  | calls + 1 =>
    let (next, first) := admin.disableStrictMode connection
    match first.outcome with
    | .error e => (next, ⟨first.events, .error e⟩)
    | .ok cleared =>
      let (last, others) := next.disableRepeatedly connection calls
      (last, ⟨first.events ++ others.events, others.outcome.map (· + if cleared then 1 else 0)⟩)

end Admin

end SqlDialects
