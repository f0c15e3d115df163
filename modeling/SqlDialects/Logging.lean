/-
The threshold of the root logger: records below it are not shown.

- `configure` acts once. The first call installs a handler and then looks up the level, so an unknown level still leaves
  the handler behind, and every later call does nothing (`configure_run`).
-/
import SqlDialects.Settings.Basic
import SqlDialects.Text.Quoted
import SqlDialects.Text.Uppercase

namespace SqlDialects

structure RootLogger where
  threshold : Nat := 30
  /-- a handler is installed -/
  installed : Bool := false
deriving DecidableEq, Repr

/-- the level that was asked for, in upper case -/
structure UnknownLevel where
  level : String
deriving DecidableEq, Repr

def UnknownLevel.message (e : UnknownLevel) : String := "Unknown level: " ++ Text.quoted e.level

namespace RootLogger

/-- the levels by name, in upper case -/
def thresholds : List (String × Nat) :=
  [("CRITICAL", 50), ("FATAL", 50), ("ERROR", 40), ("WARNING", 30), ("WARN", 30), ("INFO", 20), ("DEBUG", 10),
    ("NOTSET", 0)]

def configure (root : RootLogger) (settings : Settings) : RootLogger × Except UnknownLevel Unit :=
  if root.installed then (root, .ok ())
  else
    let level := Text.uppercase settings.logLevel
    match thresholds.lookup level with
    | some threshold => ({ root with threshold := threshold, installed := true }, .ok ())
    | none => ({ root with installed := true }, .error ⟨level⟩)

theorem configure_of_installed {root : RootLogger} (h : root.installed = true) (settings : Settings) :
    root.configure settings = (root, .ok ()) := by
  simp [configure, h]

theorem installed_configure (root : RootLogger) (settings : Settings) :
    (root.configure settings).1.installed = true := by
  by_cases h : root.installed = true
  · rw [configure_of_installed h]; exact h
  · cases hl : thresholds.lookup (Text.uppercase settings.logLevel) <;> simp [configure, h, hl]

/-- **Only the first call counts**: later ones, with whatever settings, leave what it left. -/
theorem configure_run (root : RootLogger) (first : Settings) (later : List Settings) :
    later.foldl (fun root settings => (root.configure settings).1) (root.configure first).1 =
      (root.configure first).1 := by
  induction later with
  | nil => rfl
  | cons settings later ih =>
    rw [List.foldl_cons, configure_of_installed (installed_configure root first)]
    exact ih

end RootLogger

end SqlDialects
