/-
The registry of dialects, one under each driver name; the last one registered under a name wins.

- `under_register`: what is found under a name after a registration.
- `get` finds a dialect by a driver name in any case; `resolve` takes the reference dialect, with a warning, where `get`
  finds nothing. A dialect that is given as it is needs no registry.
-/
import SqlDialects.Dialect.Builtin
import SqlDialects.Trace

namespace SqlDialects

/-- no dialect is registered under a name; the names that are, in alphabetical order -/
structure UnsupportedDialect where
  name : String
  available : List String
deriving DecidableEq, Repr

def UnsupportedDialect.message (e : UnsupportedDialect) : String :=
  "Unsupported dialect '" ++ e.name ++ "'. Available: " ++ String.intercalate ", " e.available

/-- a dialect by name, or as it is -/
inductive DialectChoice where
  | named (name : String)
  | given (dialect : Dialect)
deriving DecidableEq, Repr

structure Registry where
  dialects : List Dialect
deriving DecidableEq, Repr

namespace Registry

/-- without any dialect -/
def empty : Registry := ⟨[]⟩

/-- with the built-in dialects -/
def builtin : Registry := ⟨Driver.all.map Dialect.builtin⟩

/-- the dialect takes the place of the one registered under the same name, if there is one -/
def register (registry : Registry) (dialect : Dialect) : Registry :=
  ⟨dialect :: registry.dialects.filter (·.driver != dialect.driver)⟩

/-- the dialect registered under a name -/
def under (registry : Registry) (name : String) : Option Dialect := registry.dialects.find? (·.driver.text == name)

/-- the names that a dialect is registered under, in alphabetical order -/
def available (registry : Registry) : List String :=
  (Driver.all.filter fun driver => registry.dialects.any (·.driver == driver)).map Driver.text

/-- the dialect registered under a name, whatever the case of its letters -/
def get (registry : Registry) (name : String) : Except UnsupportedDialect Dialect :=
  match registry.under (Text.lowercase name) with
  | some dialect => .ok dialect
  | none => .error ⟨name, registry.available⟩

/-- like `get`, but an unknown name stands for the reference dialect -/
def resolve (registry : Registry) : DialectChoice → Traced UnsupportedDialect Dialect
  | .given dialect => pure dialect
  | .named name =>
    match registry.get name with
    | .ok dialect => pure dialect
    | .error e => do
      Traced.log .dialect .warning (e.message ++ "; falling back to '" ++ Driver.reference.text ++ "'")
      Traced.ofExcept (registry.get Driver.reference.text)

theorem under_register (registry : Registry) (dialect : Dialect) (name : String) :
    (registry.register dialect).under name = if dialect.driver.text = name then some dialect else registry.under name := by
  by_cases h : dialect.driver.text = name
  · simp [under, register, h]
  · -- the filter drops only what stood under the name of `dialect`
    have hkeep : (fun other : Dialect =>
        decide ((other.driver != dialect.driver) = true ∧ (other.driver.text == name) = true)) =
        fun other => other.driver.text == name := by
      funext other
      by_cases ho : other.driver.text = name
      · have hne : other.driver ≠ dialect.driver := by rintro heq; rw [heq] at ho; exact h ho
        simp [ho, hne]
      · simp [ho]
    have hd : (dialect.driver.text == name) = false := by simp [h]
    simp only [under, register, List.find?_cons, hd, List.find?_filter, hkeep, if_neg h]

end Registry

end SqlDialects
