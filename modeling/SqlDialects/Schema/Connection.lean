/-
A database connection, as far as schema administration uses it: it takes statements and updates, each of which may fail,
and it has a configuration that can be asked for values.

Every call is an event, also the one that fails (`call_eq`).
-/
import SqlDialects.Settings.Value
import SqlDialects.Trace

namespace SqlDialects

structure Connection where
  /-- the configured value under a key; null where there is none -/
  config : String → Value
  /-- the statements that fail -/
  fails : String → Bool

/-- a statement failed -/
structure StatementFailed where
  sql : String
deriving DecidableEq, Repr

def StatementFailed.message (e : StatementFailed) : String := "failed: " ++ e.sql

namespace Connection

/-- a call of the connection with the given SQL -/
def call (connection : Connection) (event : Event) (sql : String) : Traced StatementFailed Unit := do
  Traced.emit event
  if connection.fails sql then Traced.fail ⟨sql⟩ else pure ()

def execute (connection : Connection) (sql : String) : Traced StatementFailed Unit :=
  connection.call (.statement sql) sql

def update (connection : Connection) (sql : String) : Traced StatementFailed Unit :=
  connection.call (.update sql) sql

def readConfig {ε : Type} (connection : Connection) (key : String) : Traced ε Value := do
  Traced.emit (.readConfig key)
  pure (connection.config key)

theorem call_eq (connection : Connection) (event : Event) (sql : String) :
    connection.call event sql = ⟨[event], if connection.fails sql then .error ⟨sql⟩ else .ok ()⟩ := by
  rw [call, Traced.bind_of_ok _ (Traced.outcome_emit event)]
  by_cases h : connection.fails sql = true
  · simp [h, Traced.fail]
  · simp [h]

end Connection

end SqlDialects
